/-
**Compactions and the messages they may lose.**
-/

import AgentPlatform.ContextProvenance

namespace AgentPlatform

open BuildStage ContextPipeline ContextSession Option Bool

open History

theorem BuildStage.latest_of_context {stage : BuildStage} {c : LoadedContext}
    (h : stage.context = some c) : stage.latest = c.latest := by
  cases stage <;> cases h <;> rfl

theorem BuildStage.pending_of_context {stage : BuildStage} {c : LoadedContext}
    (h : stage.context = some c) : stage.pending = c.pending := by
  cases stage <;> cases h <;> rfl

theorem ContextBuild.request_conversation {b : ContextBuild} {env : BuildEnv} {c : LoadedContext}
    (h : c.request = b.request env c.latest c.pending c.rows) {m : SessionMessage}
    (hm : m ∈ c.rows) : c.request.conversation = c.rows.map (·.row.message) := by
  rw [h]
  exact if_neg fun hn => List.ne_nil_of_mem hm hn.1

namespace ContextHistory

variable {F : Following} {h : ContextHistory}

def Accounts (h : ContextHistory) (c : LoadedContext) (m : SessionMessage) : Prop :=
  m ∈ c.rows ∨ ∃ k, c.latest = some k ∧ m ∈ h.origins k.id

def Below (F : Following) (h : ContextHistory) (n : ℕ) (m : SessionMessage) : Prop :=
  m ∈ h.session.visible ∧ F.follows h.session m = true ∧ m.row.sequence ≤ n

/-- **What is followed is accounted for**. -/
structure Accounted (F : Following) (h : ContextHistory) : Prop where
  wellFormed : h.session.WellFormed
  summaries : ∀ k ∈ h.session.compactions, k.summary ≠ some ""
  covered : ∀ k ∈ h.session.compactions, k.summary.isSome = true → ∀ m,
    h.Below F k.sourceMessageSequence m → m ∈ h.origins k.id
  seen : ∀ id b c, h.session.builds id = some b → b.stage.context = some c →
    ∀ m ∈ h.seen id, h.Accounts c m
  below : ∀ id b c k, h.session.builds id = some b → b.stage.context = some c →
    c.pending = some k → ∀ m, h.Below F k.sourceMessageSequence m → h.Accounts c m
  finishing : ∀ id b c k result, h.session.builds id = some b → b.stage = .finishing c k result →
    ∀ text, result.summary = some text →
      text ≠ "" ∧ ∀ m, h.Below F k.sourceMessageSequence m → m ∈ h.made id
  retained : ∀ id b c result, h.session.builds id = some b → ContextSession.resultOf b c result →
    ∀ m ∈ h.seen id, m ∈ h.kept id ∨ m ∈ h.made id

theorem Below.before {op : SessionOp} (hs : h.session.WellFormed) {n : ℕ}
    (hn : n < h.session.nextSequence) {m : SessionMessage} (hm : (h.apply F op).Below F n m) :
    h.Below F n m := by
  obtain ⟨hv, hfollows, hle⟩ := hm
  obtain ⟨_, -, he, -⟩ := h.session.apply_steps op
  have hb : m ∈ h.session.visible := he.visible_of_le hs hv hn hle
  exact ⟨hb, F.stable h.session op m hb hv hfollows, hle⟩

namespace Accounted

variable {op : SessionOp} {id : ℕ} {b : ContextBuild} {c : LoadedContext}

theorem latest (hh : h.Accounted F) (hb : h.session.builds id = some b)
    {k : ContextCompaction} (hk : k ∈ b.stage.latest) :
    k ∈ h.session.compactions ∧ k.isPending = false ∧ ∃ text, k.summary = some text ∧ text ≠ "" := by
  obtain ⟨hmem, hs⟩ := hh.wellFormed.latest id b hb k hk
  obtain ⟨text, ht⟩ := isSome_iff_exists.1 hs
  refine ⟨hmem, not_pending_of_summary hs, text, ht, ?_⟩
  rintro rfl
  exact hh.summaries k hmem ht

theorem accounts (hh : h.Accounted F) (hb : h.session.builds id = some b)
    (hl : b.stage.latest = c.latest) {m : SessionMessage} (hm : h.Accounts c m) :
    (h.apply F op).Accounts c m := by
  refine hm.imp_right ?_
  rintro ⟨k, hk, ho⟩
  obtain ⟨hmem, hend, -⟩ := hh.latest hb (hl.trans hk)
  refine ⟨k, hk, ?_⟩
  rw [apply_origins hh.wellFormed hmem hend op]
  exact ho

theorem accounts_read (hh : h.Accounted F) (hb : h.session.builds id = some b)
    (hl : b.stage.latest = c.latest) {limit : ℕ}
    (hli : h.session.listMessages (c.latest.map (·.sourceMessageSequence))
      (c.pending.map (·.sourceMessageSequence)) limit = .ok c.rows) {m : SessionMessage}
    (hm : m ∈ h.session.visible) (hfollows : F.follows h.session m)
    (ht : ∀ k ∈ c.pending, m.row.sequence ≤ k.sourceMessageSequence) : h.Accounts c m := by
  have hrow : (c.latest.map (·.sourceMessageSequence)).all (· < m.row.sequence) = true →
      m ∈ c.rows := by
    intro ha
    rw [listMessages_ok hli]
    refine mem_filter.2 ⟨mem_filter.2 ⟨hm, ha⟩, ?_⟩
    cases hp : c.pending with
    | none => rfl
    | some k =>
      simp only [map_some, all_some, decide_eq_true_eq]
      exact ht k hp
  cases hk : c.latest with
  | none =>
    rw [hk] at hrow
    exact .inl (hrow rfl)
  | some k =>
    by_cases hle : m.row.sequence ≤ k.sourceMessageSequence
    · obtain ⟨hmem, -, _, hte, -⟩ := hh.latest hb (hl.trans hk)
      exact .inr ⟨k, hk, hh.covered k hmem (by rw [hte]; rfl) m ⟨hm, hfollows, hle⟩⟩
    · rw [hk] at hrow
      exact .inl (hrow (by simpa using hle))

section Pipeline

variable {env : BuildEnv} {result : ContextBuildResult} {m : SessionMessage}

theorem previous_built (hh : h.Accounted F) (hb : h.session.builds id = some b)
    (hst : b.stage = .loaded c) (hbu : env.pipeline.build c.request = .ok result)
    (hl : env.pipeline.lossless c.request) {k : ContextCompaction}
    (hk : c.latest = some k) (hm : m ∈ h.origins k.id) :
    m ∈ env.pipeline.provenance h.origins c result := by
  obtain ⟨_, hreq⟩ := hh.wellFormed.requests id b hb c (by rw [hst]; rfl)
  obtain ⟨-, -, text, ht, hne⟩ := hh.latest hb (by rw [hst]; exact hk)
  have hsum : c.request.previousSummary = some text := by
    rw [hreq]
    exact (congrArg b.previousSummary hk).trans ht
  exact previous_fate hbu hl hk hsum hne hm

theorem retained_built (hh : h.Accounted F) (hb : h.session.builds id = some b)
    (hst : b.stage = .loaded c) (hbu : env.pipeline.build c.request = .ok result)
    (hl : env.pipeline.lossless c.request) (hm : h.Accounts c m) :
    m ∈ (h.apply F (.advance id env)).kept id ∨ m ∈ (h.apply F (.advance id env)).made id := by
  obtain ⟨hke, hma⟩ := apply_kept_built (F := F) hb hst hbu
  rw [hke, hma]
  rcases hm with hrow | ⟨k, hk, ho⟩
  · obtain ⟨_, hreq⟩ := hh.wellFormed.requests id b hb c (by rw [hst]; rfl)
    have hr := ContextBuild.request_conversation hreq hrow
    refine (row_fate hbu hl hr hrow).imp_left fun hi => ?_
    exact mem_filter.2 ⟨hrow, hi⟩
  · exact .inr (hh.previous_built hb hst hbu hl hk ho)

theorem made_built (hh : h.Accounted F) (hb : h.session.builds id = some b)
    (hst : b.stage = .loaded c) (hbu : env.pipeline.build c.request = .ok result)
    (hl : env.pipeline.lossless c.request) (hsum : result.summary ≠ none)
    (hc : m ∉ c.rowsWith env.pipeline.recentMessages (·.critical)) (hm : h.Accounts c m) :
    m ∈ (h.apply F (.advance id env)).made id := by
  rw [(apply_kept_built (F := F) hb hst hbu).2]
  rcases hm with hrow | ⟨k, hk, ho⟩
  · obtain ⟨_, hreq⟩ := hh.wellFormed.requests id b hb c (by rw [hst]; rfl)
    have hr := ContextBuild.request_conversation hreq hrow
    exact row_compressed hbu hl hr hsum hrow hc
  · exact hh.previous_built hb hst hbu hl hk ho

end Pipeline

theorem keeps_loaded {env : BuildEnv} (hb : h.session.builds id = some b)
    (hst : b.stage = .loaded c) (hk : h.keeps F (.advance id env)) :
    env.pipeline.lossless c.request ∧
      (c.pending ≠ none → env.pipeline.hasNoncritical c.request →
        ∀ m ∈ c.rowsWith env.pipeline.recentMessages (·.critical),
          F.follows h.session m = false) := by
  simp only [keeps, hb, all_some, hst, and_eq_true, or_eq_true,
    not_eq_true', and_eq_false_iff, List.all_eq_true] at hk
  refine ⟨hk.1, fun hp hn m hm => ?_⟩
  rcases hk.2 with hno | hall
  · rcases hno with hno | hno
    · exact absurd (isSome_iff_ne_none.2 hp) (by simp [hno])
    · rw [hno] at hn
      cases hn
  · exact hall m hm

theorem apply (hh : h.Accounted F) (hke : h.keeps F op) : (h.apply F op).Accounted F := by
  obtain ⟨_, -, _, hco⟩ := h.session.apply_steps op
  have hs := hh.wellFormed
  have hp : ∀ {id b k}, h.session.builds id = some b → k ∈ b.stage.pending →
      k.sourceMessageSequence < h.session.nextSequence := by
    intro id b k hb hk
    obtain ⟨row, hrow, -, hso⟩ := hs.pending id b hb k hk
    exact hso ▸ hs.sources row hrow
  refine
    { wellFormed := hs.apply op
      summaries := ?_
      covered := ?_
      seen := ?_
      below := ?_
      finishing := ?_
      retained := ?_ }
  · -- a new summary is that of a build that finishes
    intro k hk he
    obtain hold | ⟨build, env, b, c, pending, result, row, -, hb, hst, -, -, -, hsum, -⟩ :=
      hco.completed hk he
    · exact hh.summaries k hold he
    · exact (hh.finishing build b c pending result hb hst "" hsum).1 rfl
  · intro k hk hsm m hm
    obtain ⟨text, ht⟩ := isSome_iff_exists.1 hsm
    obtain hold | ⟨build, env, b, c, pending, result, row, rfl, hb, hst, hrow, hid, hr,
      hsum, hki, hks⟩ := hco.completed hk ht
    · rw [apply_origins hs hold (not_pending_of_summary hsm) op]
      exact hh.covered k hold hsm m (hm.before hs (hs.sources k hold))
    rw [hki, apply_origins_ended hb hst hrow hid hr env]
    obtain ⟨_, hrow', hid', hso'⟩ :=
      hs.pending build b hb pending
        (by rw [hst]; exact hs.finishing build b c pending result hb hst)
    obtain rfl := inj_on_of_nodup_map hs.keys hrow hrow' (hid.trans hid'.symm)
    rw [hks] at hm
    have hbe := hm.before hs (hs.sources row hrow)
    rw [hso'] at hbe
    exact (hh.finishing build b c pending result hb hst text hsum).2 m hbe
  · intro id b' c hb' hc m hm
    obtain ⟨b, hb, hct, -⟩ | ⟨env, b, rfl, hb, hst, -, hl, -⟩ :=
      apply_context hb' hc
    · rw [apply_seen hb hct op] at hm
      exact hh.accounts hb (latest_of_context hct) (hh.seen id b c hb hct m hm)
    have hla : b.stage.latest = c.latest := by rw [hst]; rfl
    rw [apply_seen_read hb hst env] at hm
    obtain ⟨hv, hw⟩ := mem_filter.1 hm
    refine hh.accounts hb hla (hh.accounts_read hb hla hl hv
      (and_eq_true_iff.1 hw).1 fun k hk => ?_)
    rw [mem_def.1 hk] at hst
    simp only [keeps, hb, all_some, hst, List.all_eq_true, or_eq_true,
      not_eq_true', decide_eq_true_eq] at hke
    refine (hke m hv).resolve_left ?_
    rw [hw]
    simp
  · intro id b' c k hb' hc hk m hm
    obtain ⟨b, hb, hct, -⟩ | ⟨env, b, rfl, hb, hst, -, hl, -⟩ :=
      apply_context hb' hc
    · have hbe := hm.before hs
        (hp hb (by rw [pending_of_context hct]; exact hk))
      exact hh.accounts hb (latest_of_context hct)
        (hh.below id b c k hb hct hk m hbe)
    · have hla : b.stage.latest = c.latest := by rw [hst]; rfl
      obtain ⟨hv, hfollows, hle⟩ := hm.before hs
        (hp hb (by rw [hst]; exact hk))
      refine hh.accounts hb hla
        (hh.accounts_read hb hla hl hv hfollows fun k' hk' => ?_)
      obtain rfl := some_inj.1 (hk.symm.trans hk')
      exact hle
  · intro id b' c k result hb' hst' text ht
    obtain hold | ⟨env, b, _, stage, rfl, hb, hmv, -, rfl⟩ |
      ⟨run, lease, codec, now, store, recovery, -, -, -, -, rfl⟩ := apply_builds hb'
    · obtain ⟨hne, hma⟩ := hh.finishing id b' c k result hold hst' text ht
      refine ⟨hne, fun m hm => ?_⟩
      rw [(apply_kept hold (.inr ⟨k, hst'⟩) op).2]
      refine hma m (hm.before hs (hp hold ?_))
      rw [hst']
      exact hs.finishing id b' c k result hold hst'
    · cases hmv with
      | finishing _ _ _ stage found build =>
        cases hst'
        obtain ⟨hlo, hcr⟩ := keeps_loaded hb stage hke
        obtain ⟨hne, hn, -⟩ := build_summary build ht
        refine ⟨hne, fun m hm => ?_⟩
        have hct : b.stage.context = some c := by rw [stage]; rfl
        have hbe := hm.before hs (hp hb (by rw [stage]; exact found))
        refine hh.made_built hb stage build hlo (by rw [ht]; simp) (fun hmem => ?_)
          (hh.below id b c k hb hct found m hbe)
        have hno := hcr (by rw [found]; simp) hn m hmem
        rw [hbe.2.1] at hno
        cases hno
      | _ => cases hst'
    · cases hst'
  · intro id b' c result hb' hre m hm
    obtain ⟨b, hb, hbe⟩ | ⟨env, b, rfl, hb, hst, hbu⟩ :=
      apply_result hb' hre
    · rw [apply_seen hb (resultOf_context hbe) op] at hm
      obtain ⟨hkp, hma⟩ := apply_kept (F := F) hb hbe op
      rw [hkp, hma]
      exact hh.retained id b c result hb hbe m hm
    · have hct : b.stage.context = some c := by rw [hst]; rfl
      rw [apply_seen hb hct (.advance id env)] at hm
      exact hh.retained_built hb hst hbu (keeps_loaded hb hst hke).1
        (hh.seen id b c hb hct m hm)

end Accounted

theorem accounted_empty : ({} : ContextHistory).Accounted F where
  wellFormed := wellFormed_empty
  summaries := fun _ hk => absurd hk not_mem_nil
  covered := fun _ hk => absurd hk not_mem_nil
  seen := fun _ _ _ hb => by cases hb
  below := fun _ _ _ _ hb => by cases hb
  finishing := fun _ _ _ _ _ hb => by cases hb
  retained := fun _ _ _ _ hb => by cases hb

end ContextHistory

theorem history_accounted (F : Following) {ops : List SessionOp}
    (hops : Admissible (ContextHistory.apply F) (fun h op => h.keeps F op = true) {} ops) :
    (ops.foldl (ContextHistory.apply F) {}).Accounted F :=
  hops.invariant (ContextHistory.Accounted F) (fun _ _ hh hop => hh.apply hop)
    ContextHistory.accounted_empty

theorem ContextHistory.Accounted.isRetained {F : Following} {h : ContextHistory}
    (hh : h.Accounted F) : h.Retained :=
  fun id b c result hb hst => hh.retained id b c result hb (.inl hst)

def Following.all : Following where
  follows := fun _ _ => true
  wants := fun _ _ => true
  stable := fun _ _ _ _ _ hfollows => hfollows

/-- **Compaction loses nothing**. -/
theorem compaction_loses_nothing (ops : List SessionOp)
    (hops : Admissible (ContextHistory.apply .all) (fun h op => h.keeps .all op = true) {} ops) :
    (ops.foldl (ContextHistory.apply .all) {}).Retained :=
  (history_accounted .all hops).isRetained

def narrowPipeline : ContextPipeline :=
  { scriptedPipeline with
    budgets := fun _ => some { maxContextTokens := 4200, below := by decide }
    estimateMessages := fun messages =>
      (messages.map fun m => (scriptedPipeline.codec.contentText m.content).length).sum
    recentMessages := 1
    recent := Nat.one_pos }

def longTask : List SessionOp :=
  [SessionOp.submit (sessionSubmission 0 "a task that is too long for the few tokens of the route")] ++
    takeRun 0 1 ++ [SessionOp.requestCompaction 50 "manual" "default" 100] ++
    buildContext scriptedRecovery 0 0 1 5 (scriptedBuild 100) ++
    [journal 0 1 1 (scriptedTurn "call-1"), loseRun 0 1] ++ takeRun 0 2 ++
    buildContext scriptedRecovery 1 0 2 5 { scriptedBuild 200 with pipeline := narrowPipeline }

theorem compaction_loses_nothing_long_task :
    ((longTask.foldl (ContextHistory.apply .all) {}).kept 1).map (·.row.message) =
        scriptedTurn "call-1" ∧
      ((longTask.foldl (ContextHistory.apply .all) {}).made 1).map (·.row.message.role) = [.user] ∧
      (longTask.foldl (ContextHistory.apply .all) {}).Retained :=
  ⟨by decide +kernel, by decide +kernel, compaction_loses_nothing longTask (by decide +kernel)⟩

theorem ContextHistory.Retained.built {h : ContextHistory} (hh : h.Retained) {id : ℕ}
    (hbu : (h.session.built id).isSome) :
    ∀ m ∈ h.seen id, m ∈ h.kept id ∨ m ∈ h.made id := by
  obtain ⟨_, hms⟩ := isSome_iff_exists.1 hbu
  obtain ⟨_, hre, rfl⟩ := map_eq_some_iff.1 hms
  obtain ⟨b, hb, hst⟩ := bind_eq_some_iff.1 hre
  cases hr : b.stage with
  | returned c result' => exact hh id b c result' hb hr
  | _ =>
    rw [hr] at hst
    cases hst

def compactedTask : List SessionOp :=
  [SessionOp.submit (sessionSubmission 0 "task"),
   SessionOp.requestCompaction 50 "manual" "default" 50] ++ takeRun 0 1 ++
    buildContext scriptedRecovery 0 0 1 5 (scriptedBuild 100 [scriptedMemory]) ++
    [loseRun 0 1] ++ takeRun 0 2 ++ buildContext scriptedRecovery 1 0 2 5 (scriptedBuild 200)

theorem compaction_loses_recent :
    (compactedTask.foldl (ContextHistory.apply .all) {}).session.built 0 =
        some [systemMessage ("Compacted prior context:\nsummary\n\n" ++ scriptedInstructions),
          { role := .user, content := .text "task" }] ∧
      (compactedTask.foldl (ContextHistory.apply .all) {}).session.built 1 =
        some [systemMessage ("Previous compacted context:\nsummary\n\n" ++ scriptedInstructions)] ∧
      ¬ (compactedTask.foldl (ContextHistory.apply .all) {}).Retained := by
  refine ⟨by decide +kernel, by decide +kernel, fun h => ?_⟩
  have hbuilt := @ContextHistory.Retained.built _ h 1 (by decide +kernel)
  revert hbuilt
  decide +kernel

end AgentPlatform
