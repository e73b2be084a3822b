/-
**What becomes of a message that a build has read.**
-/

import AgentPlatform.ContextResults
import AgentPlatform.ContextSteps

namespace AgentPlatform

open List Option

def LoadedContext.fragmentRows (c : LoadedContext) (recentMessages : ℕ) :
    List (SessionMessage × ContextFragment) :=
  c.rows.zip (conversationFragments recentMessages c.request)

def LoadedContext.rowsWith (c : LoadedContext) (recentMessages : ℕ) (has : ContextFragment → Bool) :
    List SessionMessage :=
  ((c.fragmentRows recentMessages).filter fun x => has x.2).map (·.1)

namespace ContextPipeline

def hasNoncritical (p : ContextPipeline) (r : ContextBuildRequest) : Bool :=
  match requestFragments p.codec p.recentMessages r with
  | .ok fragments => fragments.any (!·.critical)
  | .error _ => false

def compressed (p : ContextPipeline) (r : ContextBuildRequest) : List ContextFragment :=
  match requestFragments p.codec p.recentMessages r with
  | .ok fragments =>
    sourceFragments p.codec p.maxCompressionInputBytes (fragments.filter (!·.critical))
  | .error _ => []

def lossless (p : ContextPipeline) (r : ContextBuildRequest) : Bool :=
  !p.compresses r ||
    match p.budget r.routeName, requestFragments p.codec p.recentMessages r with
    | .ok budget, .ok fragments =>
      renderedBytes p.codec (fragments.filter (!·.critical)) ≤ p.maxCompressionInputBytes + 2 &&
        match p.compression r (fragments.filter (!·.critical)) with
        | .ok (some c) =>
          (List.range 2).all fun n => p.fits (fragments.filter (·.critical)) budget.availableInputTokens
            (String.ofList (c.summary.toList.take n))
        | _ => true
    | _, _ => true

def provenance (p : ContextPipeline) (origins : Uuid → List SessionMessage) (c : LoadedContext)
    (result : ContextBuildResult) : List SessionMessage :=
  let earlier := c.latest.elim [] fun k => origins k.id
  let compressed := p.compressed c.request
  (if "new-compacted-summary" ∈ result.retainedFragmentIds then
     c.rowsWith p.recentMessages (· ∈ compressed) ++
       if "previous-compacted-summary" ∈ compressed.map (·.id) then earlier else []
   else []) ++ if "previous-compacted-summary" ∈ result.retainedFragmentIds then earlier else []

end ContextPipeline

section Rows

variable {c : LoadedContext} {recentMessages : ℕ} {m : SessionMessage}

theorem mem_rowsWith {has : ContextFragment → Bool} : m ∈ c.rowsWith recentMessages has ↔
      ∃ f, (m, f) ∈ c.fragmentRows recentMessages ∧ has f := by
  unfold LoadedContext.rowsWith
  simp only [mem_map, mem_filter, Prod.exists]
  constructor
  · rintro ⟨_, f, ⟨hmem, hh⟩, rfl⟩
    exact ⟨f, hmem, hh⟩
  · rintro ⟨f, hmem, hh⟩
    exact ⟨m, f, ⟨hmem, hh⟩, rfl⟩

theorem exists_fragmentRow (hrow : c.request.conversation = c.rows.map (·.row.message))
    (hm : m ∈ c.rows) : ∃ f, (m, f) ∈ c.fragmentRows recentMessages ∧
      f ∈ conversationFragments recentMessages c.request ∧ f.message = m.row.message := by
  obtain ⟨i, hi, rfl⟩ := mem_iff_getElem.1 hm
  have hlen : (conversationFragments recentMessages c.request).length = c.rows.length := by
    unfold conversationFragments
    rw [length_mapIdx, hrow, length_map]
  have hf : i < (conversationFragments recentMessages c.request).length := hlen ▸ hi
  refine ⟨(conversationFragments recentMessages c.request)[i], ?_, getElem_mem hf, ?_⟩
  · refine mem_iff_getElem.2 ⟨i, ?_, getElem_zip⟩
    rw [LoadedContext.fragmentRows, length_zip]
    omega
  · simp [conversationFragments, conversationFragment, hrow]

end Rows

namespace ContextPipeline

variable {p : ContextPipeline} {r : ContextBuildRequest} {fragments : List ContextFragment}

theorem mem_compressed (hc : requestFragments p.codec p.recentMessages r = .ok fragments)
    (hb : renderedBytes p.codec (fragments.filter (!·.critical)) ≤
      p.maxCompressionInputBytes + 2) {f : ContextFragment} (hf : f ∈ fragments)
    (hcr : f.critical = false) : f ∈ p.compressed r := by
  unfold compressed
  rw [hc]
  exact mem_sourceFragments hb (mem_filter.2 ⟨hf, by simp [hcr]⟩)

inductive Keeps (p : ContextPipeline) (r : ContextBuildRequest) (result : ContextBuildResult) : Prop
  | whole (fragments : List ContextFragment)
      (collected : requestFragments p.codec p.recentMessages r = .ok fragments)
      (assembled : assembleMessages p.codec fragments = .ok result.messages)
      (ids : result.retainedFragmentIds = fragments.map (·.id))
  | compacted (fragments retained : List ContextFragment)
      (collected : requestFragments p.codec p.recentMessages r = .ok fragments)
      (assembled : assembleMessages p.codec retained = .ok result.messages)
      (critical : ∀ f ∈ fragments, f.critical = true → f ∈ retained)
      (others : ∀ f ∈ fragments, f.critical = false →
        f ∈ p.compressed r ∧ "new-compacted-summary" ∈ result.retainedFragmentIds)

theorem build_keeps {result : ContextBuildResult} (hb : p.build r = .ok result)
    (hl : p.lossless r) : p.Keeps r result := by
  cases build_built hb with
  | whole fragments collected assembled _ _ retained =>
    exact .whole fragments collected assembled retained
  | compacted fragments budget _ retained budgeted collected compresses compression fitted kept
      assembled ids =>
      have hr := retainedFragments_ok kept
      simp only [lossless, compresses, Bool.not_true, Bool.false_or, budgeted, collected, compression,
        and_eq_true, decide_eq_true_eq] at hl
      refine .compacted fragments retained collected assembled (fun f hf hc => ?_)
        fun f hf hc => ⟨mem_compressed collected hl.1 hf hc, ?_⟩
      · rw [hr]
        exact mem_append_right _ (mem_filter.2 ⟨hf, hc⟩)
      have hne : fragments.filter (!·.critical) ≠ [] :=
        ne_nil_of_mem (mem_filter.2 ⟨hf, by simp [hc]⟩)
      obtain ⟨hnil, -⟩ | ⟨-, c, rfl⟩ := compression_inv compression
      · exact absurd hnil hne
      have hfit : ∀ n ≤ 1, p.fits (fragments.filter (·.critical)) budget.availableInputTokens
          (String.ofList (c.summary.toList.take n)) = true :=
        fun n hn => List.all_eq_true.1 hl.2 n (mem_range.2 (by omega))
      obtain ⟨_, ht⟩ :=
        ne_none_iff_exists'.1 (fitSummary_some c.nonempty hfit fitted)
      rw [ids, hr, ht]
      exact mem_map.2 ⟨_, mem_append_left _ (mem_singleton_self _), rfl⟩

theorem build_summary {result : ContextBuildResult} (hb : p.build r = .ok result)
    {text : String} (hsum : result.summary = some text) : text ≠ "" ∧ p.hasNoncritical r ∧
      "new-compacted-summary" ∈ result.retainedFragmentIds := by
  cases build_built hb with
  | whole _ _ _ _ summary =>
    rw [summary] at hsum
    cases hsum
  | compacted _ _ _ _ _ collected _ compression fitted kept _ ids =>
      rw [hsum] at fitted kept
      obtain ⟨_, rfl⟩ := fittedSummary_compressed fitted
      obtain ⟨-, hn⟩ | ⟨hne, -⟩ := compression_inv compression
      · cases hn
      refine ⟨fitSummary_ne_empty fitted, ?_, ?_⟩
      · obtain ⟨f, hf⟩ := exists_mem_of_ne_nil _ hne
        obtain ⟨hmem, hc⟩ := mem_filter.1 hf
        unfold hasNoncritical
        rw [collected]
        exact any_eq_true.2 ⟨f, hmem, hc⟩
      · rw [ids, retainedFragments_ok kept]
        exact mem_map.2 ⟨_, mem_append_left _ (mem_singleton_self _), rfl⟩

section Fate

variable {c : LoadedContext} {result : ContextBuildResult} {origins : Uuid → List SessionMessage}

variable {m : SessionMessage}

theorem mem_provenance_of_compressed (hnew : "new-compacted-summary" ∈ result.retainedFragmentIds)
    (hm : m ∈ c.rowsWith p.recentMessages (· ∈ p.compressed c.request)) :
    m ∈ p.provenance origins c result := by
  unfold provenance
  dsimp only
  rw [if_pos hnew]
  exact mem_append_left _ (mem_append_left _ hm)

theorem row_fate (hb : p.build c.request = .ok result) (hl : p.lossless c.request)
    (hr : c.request.conversation = c.rows.map (·.row.message)) (hm : m ∈ c.rows) :
    includesMessage p.codec result.messages m.row.message ∨
      m ∈ p.provenance origins c result := by
  obtain ⟨f, hrow, hf, hme⟩ := exists_fragmentRow hr hm
  rw [← hme]
  cases build_keeps hb hl with
  | whole _ collected assembled =>
    exact .inl (includesMessage_of_mem assembled (conversation_mem collected hf))
  | compacted _ _ collected assembled critical others =>
    have hmem := conversation_mem collected hf
    cases hc : f.critical with
    | true => exact .inl (includesMessage_of_mem assembled (critical f hmem hc))
    | false =>
      obtain ⟨hco, hnew⟩ := others f hmem hc
      exact .inr (mem_provenance_of_compressed hnew
        (mem_rowsWith.2 ⟨f, hrow, decide_eq_true hco⟩))

theorem previous_fate (hb : p.build c.request = .ok result)
    (hl : p.lossless c.request) {k : ContextCompaction} (hla : c.latest = some k)
    {summary : String} (hsum : c.request.previousSummary = some summary) (hne : summary ≠ "")
    (hm : m ∈ origins k.id) : m ∈ p.provenance origins c result := by
  unfold provenance
  dsimp only
  rw [hla, elim_some]
  cases build_keeps hb hl with
  | whole _ collected _ ids =>
    have hk : "previous-compacted-summary" ∈ result.retainedFragmentIds := by
      rw [ids]
      exact mem_map.2 ⟨_, previousSummary_mem collected hsum hne, rfl⟩
    rw [if_pos hk]
    exact mem_append_right _ hm
  | compacted _ _ collected _ _ others =>
    obtain ⟨hc, hnew⟩ := others _ (previousSummary_mem collected hsum hne) rfl
    have hp : "previous-compacted-summary" ∈ (p.compressed c.request).map (·.id) :=
      mem_map.2 ⟨_, hc, rfl⟩
    rw [if_pos hnew, if_pos hp]
    exact mem_append_left _ (mem_append_right _ hm)

theorem row_compressed (hb : p.build c.request = .ok result) (hl : p.lossless c.request)
    (hr : c.request.conversation = c.rows.map (·.row.message)) (hsum : result.summary ≠ none)
    (hm : m ∈ c.rows) (hc : m ∉ c.rowsWith p.recentMessages (·.critical)) :
    m ∈ p.provenance origins c result := by
  obtain ⟨f, hrow, hf, -⟩ := exists_fragmentRow hr hm
  obtain ⟨_, ht⟩ := ne_none_iff_exists'.1 hsum
  have hn : f.critical = false := by
    by_contra hne
    exact hc (mem_rowsWith.2 ⟨f, hrow, by simpa using hne⟩)
  obtain ⟨-, -, hnew⟩ := build_summary hb ht
  cases build_built hb with
  | whole _ _ _ _ summary =>
    exact absurd summary hsum
  | compacted _ _ _ _ budgeted collected compresses =>
      simp only [lossless, compresses, Bool.not_true, Bool.false_or, budgeted, collected,
        and_eq_true, decide_eq_true_eq] at hl
      have hco := mem_compressed collected hl.1 (conversation_mem collected hf)
        hn
      exact mem_provenance_of_compressed hnew
        (mem_rowsWith.2 ⟨f, hrow, decide_eq_true hco⟩)

end Fate

end ContextPipeline

structure Following where
  follows : ContextSession → SessionMessage → Bool
  wants : ℕ → SessionMessage → Bool
  stable : ∀ (s : ContextSession) (op : SessionOp) (m : SessionMessage), m ∈ s.visible →
    m ∈ (s.apply op).visible → follows (s.apply op) m = true → follows s m = true

/-- A session, with what its builds read and kept, and what the summaries were made of. -/
structure ContextHistory where
  session : ContextSession := {}
  seen : ℕ → List SessionMessage := fun _ => []
  kept : ℕ → List SessionMessage := fun _ => []
  made : ℕ → List SessionMessage := fun _ => []
  origins : Uuid → List SessionMessage := fun _ => []

namespace ContextHistory

variable (F : Following)

def note (h : ContextHistory) (id : ℕ) (env : BuildEnv) (b : ContextBuild) : ContextHistory :=
  match b.stage with
  | .scheduled _ _ =>
    { h with
      seen := Function.update h.seen id
        (h.session.visible.filter fun m => F.follows h.session m && F.wants b.run m) }
  | .loaded c =>
    match env.pipeline.build c.request with
    | .ok result =>
      { h with
        kept := Function.update h.kept id (c.rows.filter fun m =>
          includesMessage env.pipeline.codec result.messages m.row.message)
        made := Function.update h.made id (env.pipeline.provenance h.origins c result) }
    | .error _ => h
  | .finishing _ pending _ =>
    if h.session.compactions.any fun k => k.id = pending.id && k.isPending then
      { h with origins := Function.update h.origins pending.id (h.made id) }
    else h
  | _ => h

def apply (h : ContextHistory) (op : SessionOp) : ContextHistory :=
  let noted :=
    match op with
    | .advance id env => (h.session.builds id).elim h (h.note F id env)
    | _ => h
  { noted with session := h.session.apply op }

def Retained (h : ContextHistory) : Prop :=
  ∀ id b c result, h.session.builds id = some b → b.stage = .returned c result →
    ∀ m ∈ h.seen id, m ∈ h.kept id ∨ m ∈ h.made id

def keeps (h : ContextHistory) : SessionOp → Bool
  | .advance id env =>
    (h.session.builds id).all fun b =>
      match b.stage with
      | .scheduled _ (some k) =>
        h.session.visible.all fun m =>
          !(F.follows h.session m && F.wants b.run m) ||
            m.row.sequence ≤ k.sourceMessageSequence
      | .loaded c =>
        env.pipeline.lossless c.request &&
          (!(c.pending.isSome && env.pipeline.hasNoncritical c.request) ||
            (c.rowsWith env.pipeline.recentMessages (·.critical)).all
              (!F.follows h.session ·))
      | _ => true
  | _ => true

variable {F} {h : ContextHistory} {id : ℕ} {b : ContextBuild}

inductive Notes (F : Following) (h : ContextHistory) (op : SessionOp) (h' : ContextHistory) : Prop
  | nothing (seen : h'.seen = h.seen) (kept : h'.kept = h.kept) (made : h'.made = h.made)
      (origins : h'.origins = h.origins)
  | read (id : ℕ) (env : BuildEnv) (b : ContextBuild) (latest pending : Option ContextCompaction)
      (advances : op = .advance id env) (found : h.session.builds id = some b)
      (stage : b.stage = .scheduled latest pending)
      (seen : h'.seen = Function.update h.seen id
        (h.session.visible.filter fun m => F.follows h.session m && F.wants b.run m))
      (kept : h'.kept = h.kept) (made : h'.made = h.made) (origins : h'.origins = h.origins)
  | built (id : ℕ) (env : BuildEnv) (b : ContextBuild) (c : LoadedContext)
      (result : ContextBuildResult) (advances : op = .advance id env)
      (found : h.session.builds id = some b) (stage : b.stage = .loaded c)
      (build : env.pipeline.build c.request = .ok result) (seen : h'.seen = h.seen)
      (kept : h'.kept = Function.update h.kept id (c.rows.filter fun m =>
        includesMessage env.pipeline.codec result.messages m.row.message))
      (made : h'.made = Function.update h.made id (env.pipeline.provenance h.origins c result))
      (origins : h'.origins = h.origins)
  | ended (id : ℕ) (env : BuildEnv) (b : ContextBuild) (c : LoadedContext)
      (pending k : ContextCompaction) (result : ContextBuildResult)
      (advances : op = .advance id env) (found : h.session.builds id = some b)
      (stage : b.stage = .finishing c pending result) (mem : k ∈ h.session.compactions)
      (same : k.id = pending.id) (isPending : k.isPending = true) (seen : h'.seen = h.seen)
      (kept : h'.kept = h.kept) (made : h'.made = h.made)
      (origins : h'.origins = Function.update h.origins pending.id (h.made id))

theorem apply_notes (h : ContextHistory) (op : SessionOp) : h.Notes F op (h.apply F op) := by
  cases op with
  | advance id env =>
    unfold apply
    dsimp only
    cases hb : h.session.builds id with
    | none => exact .nothing rfl rfl rfl rfl
    | some b =>
      rw [elim_some]
      unfold note
      split
      next latest pending hst => exact .read id env b latest pending rfl hb hst rfl rfl rfl rfl
      next c hst =>
        split
        next result hbu => exact .built id env b c result rfl hb hst hbu rfl rfl rfl rfl
        · exact .nothing rfl rfl rfl rfl
      next c pending result hst =>
        split
        next hany =>
          obtain ⟨k, hk, hp⟩ := any_eq_true.1 hany
          simp only [and_eq_true, decide_eq_true_eq] at hp
          exact .ended id env b c pending k result rfl hb hst hk hp.1 hp.2 rfl rfl
            rfl rfl
        · exact .nothing rfl rfl rfl rfl
      · exact .nothing rfl rfl rfl rfl
  | _ => exact .nothing rfl rfl rfl rfl

variable {c : LoadedContext}

theorem apply_seen (hb : h.session.builds id = some b) (hc : b.stage.context = some c)
    (op : SessionOp) : (h.apply F op).seen id = h.seen id := by
  cases h.apply_notes (F := F) op with
  | nothing seen | built _ _ _ _ _ _ _ _ _ seen | ended _ _ _ _ _ _ _ _ _ _ _ _ _ seen => rw [seen]
  | read _ _ _ _ _ _ found stage seen =>
    rw [seen]
    refine update_of_ne (fun heq => ?_) ..
    subst heq
    obtain rfl := some_inj.1 (hb.symm.trans found)
    rw [stage] at hc
    cases hc

theorem apply_kept {result : ContextBuildResult} (hb : h.session.builds id = some b)
    (hre : ContextSession.resultOf b c result) (op : SessionOp) :
    (h.apply F op).kept id = h.kept id ∧ (h.apply F op).made id = h.made id := by
  cases h.apply_notes (F := F) op with
  | nothing _ kept made | read _ _ _ _ _ _ _ _ _ kept made
  | ended _ _ _ _ _ _ _ _ _ _ _ _ _ _ kept made => rw [kept, made]; exact ⟨rfl, rfl⟩
  | built id' _ _ _ _ _ found stage _ _ kept made =>
    have hne : id ≠ id' := by
      rintro rfl
      obtain rfl := some_inj.1 (hb.symm.trans found)
      rcases hre with hr | ⟨pending, hf⟩
      · rw [stage] at hr; cases hr
      · rw [stage] at hf; cases hf
    rw [kept, made]
    exact ⟨update_of_ne hne .., update_of_ne hne ..⟩

theorem apply_origins (hs : h.session.WellFormed) {k : ContextCompaction}
    (hk : k ∈ h.session.compactions) (hend : k.isPending = false) (op : SessionOp) :
    (h.apply F op).origins k.id = h.origins k.id := by
  cases h.apply_notes (F := F) op with
  | nothing _ _ _ origins | read _ _ _ _ _ _ _ _ _ _ _ origins
  | built _ _ _ _ _ _ _ _ _ _ _ _ origins => rw [origins]
  | ended _ _ _ _ _ _ _ _ _ _ mem same isPending _ _ _ origins =>
      rw [origins]
      refine update_of_ne (fun heq => ?_) ..
      obtain rfl := inj_on_of_nodup_map hs.keys hk mem (heq.trans same.symm)
      rw [isPending] at hend
      cases hend

theorem apply_seen_read {latest pending : Option ContextCompaction}
    (hb : h.session.builds id = some b) (hst : b.stage = .scheduled latest pending)
    (env : BuildEnv) : (h.apply F (.advance id env)).seen id =
      h.session.visible.filter fun m => F.follows h.session m && F.wants b.run m := by
  unfold apply note
  simp only [hb, elim_some, hst, update_self]

theorem apply_kept_built {result : ContextBuildResult} {env : BuildEnv}
    (hb : h.session.builds id = some b) (hst : b.stage = .loaded c)
    (hbu : env.pipeline.build c.request = .ok result) :
    ((h.apply F (.advance id env)).kept id = c.rows.filter fun m =>
        includesMessage env.pipeline.codec result.messages m.row.message) ∧
      (h.apply F (.advance id env)).made id = env.pipeline.provenance h.origins c result := by
  unfold apply note
  simp only [hb, elim_some, hst, hbu, update_self, and_self]

theorem apply_origins_ended {pending k : ContextCompaction} {result : ContextBuildResult}
    (hb : h.session.builds id = some b) (hst : b.stage = .finishing c pending result)
    (hk : k ∈ h.session.compactions) (hid : k.id = pending.id) (hp : k.isPending)
    (env : BuildEnv) : (h.apply F (.advance id env)).origins k.id = h.made id := by
  have hany : (h.session.compactions.any fun k => k.id = pending.id && k.isPending) = true :=
    any_eq_true.2 ⟨k, hk, by simp [hid, hp]⟩
  unfold apply note
  simp only [hb, elim_some, hst, hany, if_true, hid, update_self]

end ContextHistory

end AgentPlatform
