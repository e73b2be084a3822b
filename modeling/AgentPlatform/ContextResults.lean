/-
**What a context that was built consists of.**
-/

import AgentPlatform.ContextPipeline

namespace AgentPlatform

open List String Except

def includesMessage (codec : ContextCodec) (messages : List GatewayMessage) (m : GatewayMessage) :
    Bool :=
  if m.role = .system then
    messages.any fun s =>
      match s.content with
      | .text text =>
        s.role = .system && decide ((codec.contentText m.content).toList <:+: text.toList)
      | _ => false
  else m ∈ messages

theorem infix_intercalate {sep x : List Char} {xs : List (List Char)} (h : x ∈ xs) :
    x <:+: sep.intercalate xs := by
  induction xs with
  | nil => exact absurd h not_mem_nil
  | cons y ys ih =>
    cases ys with
    | nil =>
      obtain rfl := mem_singleton.1 h
      simp
    | cons =>
      rw [List.intercalate_cons_cons]
      rcases mem_cons.1 h with rfl | hr
      · exact (prefix_append _ _).isInfix.trans (prefix_append _ _).isInfix
      · exact (ih hr).trans (suffix_append _ _).isInfix

section Assemble

variable {codec : ContextCodec} {fragments : List ContextFragment} {messages : List GatewayMessage}

theorem assembleMessages_ok (h : assembleMessages codec fragments = .ok messages) : messages =
      (if (fragments.map (·.message)).filter (·.role = .system) = [] then []
       else [systemMessage ("\n\n".intercalate (((fragments.map (·.message)).filter
         (·.role = .system)).map fun m => codec.contentText m.content))]) ++
      (fragments.map (·.message)).filter (·.role ≠ .system) := by
  unfold assembleMessages at h
  extract_lets all systems assembled at h
  split at h
  · cases h
  · split at h
    · cases h
    · exact (ok.inj h).symm

theorem includesMessage_of_mem (h : assembleMessages codec fragments = .ok messages)
    {f : ContextFragment} (hf : f ∈ fragments) : includesMessage codec messages f.message := by
  have hmem : f.message ∈ fragments.map (·.message) := mem_map.2 ⟨f, hf, rfl⟩
  rw [assembleMessages_ok h]
  unfold includesMessage
  by_cases hr : f.message.role = .system
  · have hs : f.message ∈ (fragments.map (·.message)).filter (·.role = .system) :=
      mem_filter.2 ⟨hmem, by simpa using hr⟩
    rw [if_pos hr, if_neg (ne_nil_of_mem hs)]
    refine any_eq_true.2 ⟨_, mem_append_left _ (mem_singleton_self _), ?_⟩
    have ht : (codec.contentText f.message.content).toList <:+:
        ("\n\n".intercalate (((fragments.map (·.message)).filter (·.role = .system)).map
          fun m => codec.contentText m.content)).toList := by
      rw [toList_intercalate]
      refine infix_intercalate (mem_map.2 ⟨_, mem_map.2 ⟨_, hs, rfl⟩, rfl⟩)
    simpa [systemMessage] using ht
  · rw [if_neg hr]
    exact decide_eq_true (mem_append_right _ (mem_filter.2 ⟨hmem, by simpa using hr⟩))

end Assemble

variable {codec : ContextCodec} {fragments : List ContextFragment} {f : ContextFragment}

theorem validateFragments_ok {values : List ContextFragment}
    (h : validateFragments codec fragments = .ok values) : values = fragments := by
  induction fragments generalizing values with
  | nil => exact (ok.inj h).symm
  | cons f rest ih =>
    rw [validateFragments] at h
    split at h
    · cases h
    · cases hr : validateFragments codec rest with
      | error => rw [hr] at h; cases h
      | ok =>
        rw [hr] at h
        rw [← ok.inj h, ih hr]

theorem collectFragments_ok {contributions : List (List ContextFragment)}
    {before : List ContextFragment}
    (h : collectFragments codec before contributions = .ok fragments) :
    fragments = before ++ contributions.flatten := by
  induction contributions generalizing before with
  | nil => simpa using (ok.inj h).symm
  | cons _ _ ih =>
    rw [collectFragments] at h
    split at h
    · cases h
    next values hval =>
      split at h
      · cases h
      · rw [ih h, validateFragments_ok hval, flatten_cons, append_assoc]

def previousFragments (r : ContextBuildRequest) : List ContextFragment :=
  (r.previousSummary.filter (· ≠ "")).toList.map previousSummaryFragment

theorem requestFragments_ok {recentMessages : ℕ} {r : ContextBuildRequest}
    (h : requestFragments codec recentMessages r = .ok fragments) :
    fragments = previousFragments r ++ (defaultContributors codec recentMessages r).flatten ∧
      (fragments.map (·.id)).Nodup := by
  unfold requestFragments at h
  split at h
  · cases h
  rename_i collected hc
  have hco := collectFragments_ok hc
  rw [nil_append] at hco
  dsimp only at h
  split at h
  · cases h
  rename_i hn
  rw [not_not] at hn
  unfold previousFragments
  split at h
  next hno =>
    rw [hno, ← ok.inj h]
    exact ⟨hco, hn⟩
  next summary hsum =>
    split at h
    · cases h
    rename_i hf
    cases hval : validateFragments codec [previousSummaryFragment summary] with
    | error => rw [hval] at h; cases h
    | ok =>
      rw [hval] at h
      rw [← ok.inj h, validateFragments_ok hval, hsum, hco]
      refine ⟨rfl, ?_⟩
      rw [map_append]
      refine List.Nodup.append (nodup_singleton _) (hco ▸ hn) ?_
      intro id hid hold
      obtain rfl := mem_singleton.1 hid
      exact hf (hco ▸ hold)

def spoken (fragments : List ContextFragment) : List GatewayMessage :=
  (fragments.map (·.message)).filter (·.role ≠ .system)

theorem spoken_append (fs gs : List ContextFragment) : spoken (fs ++ gs) = spoken fs ++ spoken gs := by
  simp [spoken]

theorem spoken_eq_nil {fs : List ContextFragment} (h : ∀ f ∈ fs, f.message.role = .system) :
    spoken fs = [] := by
  refine filter_eq_nil_iff.2 fun m hm => ?_
  obtain ⟨f, hf, rfl⟩ := mem_map.1 hm
  simp [h f hf]

theorem systemFragment_system {id content : String} {source : ContextSource} {critical : Bool}
    {priority : ℕ} (hf : f ∈ systemFragment id source content critical priority)
    : f.message.role = .system := by
  unfold systemFragment at hf
  split at hf
  · exact absurd hf not_mem_nil
  · rw [mem_singleton.1 hf]
    rfl

theorem mapIdx_system {α : Type} {items : List α} {g : ℕ → α → ContextFragment}
    (hg : ∀ i a, (g i a).message.role = .system) (hf : f ∈ items.mapIdx g) :
    f.message.role = .system := by
  obtain ⟨i, _, rfl⟩ := mem_mapIdx.1 hf
  exact hg i _

theorem chunkedTaskFragment_system {content idPrefix label : String} {critical : Bool}
    {priority ordinalStart : ℕ}
    (hf : f ∈ chunkedTaskFragment content critical priority ordinalStart idPrefix label) :
    f.message.role = .system :=
  mapIdx_system (fun _ _ => rfl) hf

theorem taskItemFragments_system {items : List Json} {index : ℕ} {before : List ContextFragment}
    (hb : ∀ f ∈ before, f.message.role = .system) :
    ∀ f ∈ taskItemFragments codec index items before, f.message.role = .system := by
  induction items generalizing index before with
  | nil => exact hb
  | cons _ _ ih =>
    refine ih fun f hf => ?_
    rcases mem_append.1 hf with hold | hnew
    · exact hb f hold
    · exact chunkedTaskFragment_system hnew

theorem activeTaskPlanFragments_system {r : ContextBuildRequest}
    (hf : f ∈ activeTaskPlanFragments codec r) : f.message.role = .system := by
  unfold activeTaskPlanFragments taskPlanFragments at hf
  split at hf
  · exact absurd hf not_mem_nil
  split at hf
  · exact chunkedTaskFragment_system hf
  extract_lets metadata fragments at hf
  split at hf
  · exact chunkedTaskFragment_system hf
  · refine taskItemFragments_system (fun f hf => ?_) f hf
    split at hf
    · exact absurd hf not_mem_nil
    · exact chunkedTaskFragment_system hf

theorem defaultContributors_eq (codec : ContextCodec) (recentMessages : ℕ) (r : ContextBuildRequest) :
    ∃ before after, (defaultContributors codec recentMessages r).flatten =
        before ++ conversationFragments recentMessages r ++ after ∧
      (∀ f ∈ before, f.message.role = .system) ∧ ∀ f ∈ after, f.message.role = .system := by
  refine ⟨systemInstructionsFragments r ++ projectInstructionsFragments r,
    referencedFilesFragments r ++ activeTaskPlanFragments codec r ++ recentToolResultsFragments r ++
      longTermMemoryFragments r ++ currentGitDiffFragments r, ?_, fun f hf => ?_, fun f hf => ?_⟩
  · simp [defaultContributors]
  · rcases mem_append.1 hf with hf | hf
    · exact systemFragment_system hf
    · exact systemFragment_system hf
  · simp only [mem_append, or_assoc] at hf
    rcases hf with hf | hf | hf | hf | hf
    · exact mapIdx_system (fun _ _ => rfl) hf
    · exact activeTaskPlanFragments_system hf
    · exact mapIdx_system (fun _ _ => rfl) hf
    · exact mapIdx_system (fun _ _ => rfl) hf
    · exact systemFragment_system hf

theorem map_conversationFragment {g : ℕ → ℕ} (recentStart : ℕ)
    (conversation : List GatewayMessage) :
    (conversation.mapIdx fun i => conversationFragment recentStart (g i)).map (·.message) =
      conversation := by
  refine ext_getElem? fun i => ?_
  rw [getElem?_map, getElem?_mapIdx]
  cases conversation[i]? <;> rfl

theorem previousFragments_system {r : ContextBuildRequest} (hf : f ∈ previousFragments r)
    : f.message.role = .system := by
  obtain ⟨_, -, rfl⟩ := mem_map.1 hf
  rfl

theorem spoken_critical_conversation (recentStart : ℕ) (conversation : List GatewayMessage) :
    spoken ((conversation.mapIdx (conversationFragment recentStart)).filter (·.critical)) =
      (conversation.drop recentStart).filter (·.role ≠ .system) := by
  have hs := take_append_drop recentStart conversation
  have hlen : (conversation.take recentStart).length ≤ recentStart := length_take_le ..
  have hb : spoken (((conversation.take recentStart).mapIdx
      (conversationFragment recentStart)).filter (·.critical)) = [] := by
    refine spoken_eq_nil fun f hf => ?_
    obtain ⟨hf, hc⟩ := mem_filter.1 hf
    obtain ⟨i, hi, rfl⟩ := mem_mapIdx.1 hf
    have hlt : ¬ recentStart ≤ i := by omega
    simpa [conversationFragment, hlt] using hc
  have ha : ((conversation.drop recentStart).mapIdx fun i =>
      conversationFragment recentStart (i + (conversation.take recentStart).length)).filter
        (·.critical) = (conversation.drop recentStart).mapIdx fun i =>
      conversationFragment recentStart (i + (conversation.take recentStart).length) := by
    refine filter_eq_self.2 fun f hf => ?_
    obtain ⟨i, hi, rfl⟩ := mem_mapIdx.1 hf
    rw [length_drop] at hi
    have hle : recentStart ≤ i + (conversation.take recentStart).length := by
      rw [length_take]
      omega
    exact Bool.or_eq_true_iff.2 (.inl (decide_eq_true hle))
  calc spoken ((conversation.mapIdx (conversationFragment recentStart)).filter (·.critical))
      = spoken (((conversation.take recentStart ++ conversation.drop recentStart).mapIdx
          (conversationFragment recentStart)).filter (·.critical)) := by rw [hs]
    _ = (conversation.drop recentStart).filter (·.role ≠ .system) := by
        rw [mapIdx_append, filter_append, spoken_append, hb, nil_append, ha,
          spoken, map_conversationFragment]

section Request

variable {codec : ContextCodec} {recentMessages : ℕ} {r : ContextBuildRequest}
  {fragments : List ContextFragment}

theorem spoken_requestFragments (h : requestFragments codec recentMessages r = .ok fragments) :
    spoken fragments = r.conversation.filter (·.role ≠ .system) := by
  obtain ⟨_, _, hc, hb, ha⟩ :=
    defaultContributors_eq codec recentMessages r
  rw [(requestFragments_ok h).1, hc]
  simp only [spoken_append, spoken_eq_nil hb, spoken_eq_nil ha,
    spoken_eq_nil fun f hf => previousFragments_system hf, nil_append, append_nil]
  exact congrArg (filter _) (map_conversationFragment (g := id) _ r.conversation)

theorem spoken_critical (h : requestFragments codec recentMessages r = .ok fragments) :
    spoken (fragments.filter (·.critical)) =
      (r.conversation.drop (recentConversationStart r.conversation recentMessages)).filter
        (·.role ≠ .system) := by
  obtain ⟨_, _, hc, hb, ha⟩ :=
    defaultContributors_eq codec recentMessages r
  have hn : ∀ {fs : List ContextFragment}, (∀ f ∈ fs, f.message.role = .system) →
      spoken (fs.filter (·.critical)) = [] :=
    fun hfs => spoken_eq_nil fun f hf => hfs f (mem_filter.1 hf).1
  rw [(requestFragments_ok h).1, hc]
  simp only [filter_append, spoken_append, hn hb, hn ha,
    hn fun f hf => previousFragments_system hf, nil_append, append_nil]
  exact spoken_critical_conversation _ _

theorem conversation_mem (h : requestFragments codec recentMessages r = .ok fragments)
    {f : ContextFragment} (hf : f ∈ conversationFragments recentMessages r) : f ∈ fragments := by
  obtain ⟨_, _, hc, -, -⟩ := defaultContributors_eq codec recentMessages r
  rw [(requestFragments_ok h).1, hc]
  exact mem_append_right _ (mem_append_left _ (mem_append_right _ hf))

theorem previousSummary_mem (h : requestFragments codec recentMessages r = .ok fragments)
    {summary : String} (hsum : r.previousSummary = some summary) (hne : summary ≠ "") :
    previousSummaryFragment summary ∈ fragments := by
  rw [(requestFragments_ok h).1]
  refine mem_append_left _ (mem_map.2 ⟨summary, ?_, rfl⟩)
  simp [hsum, hne]

end Request

def renderedBytes (codec : ContextCodec) (fragments : List ContextFragment) : ℕ :=
  (fragments.map fun f => (f.rendered codec).utf8ByteSize + 2).sum

theorem mem_selectFragments {limit : ℕ} {rest selected : List ContextFragment} {size : ℕ}
    (hs : size + renderedBytes codec rest ≤ limit + if selected = [] then 2 else 0)
    (hf : f ∈ selected ∨ f ∈ rest) : f ∈ selectFragments codec limit size selected rest := by
  induction rest generalizing size selected with
  | nil => exact hf.resolve_right not_mem_nil
  | cons g rest ih =>
    have hb : renderedBytes codec (g :: rest) =
        (g.rendered codec).utf8ByteSize + 2 + renderedBytes codec rest := rfl
    have hne : selected ++ [g] ≠ [] := by simp
    rw [hb] at hs
    have hr : size + ((g.rendered codec).utf8ByteSize + if selected = [] then 0 else 2) +
        renderedBytes codec rest ≤ limit := by
      split
      next hnil =>
        rw [if_pos hnil] at hs
        omega
      next hnil =>
        rw [if_neg hnil] at hs
        omega
    rw [selectFragments, if_neg (by omega)]
    refine ih ?_ ?_
    · rw [if_neg hne]
      exact hr
    · rcases hf with hf | hf
      · exact .inl (mem_append_left _ hf)
      · rcases mem_cons.1 hf with rfl | hf
        · exact .inl (by simp)
        · exact .inr hf

theorem mem_sourceFragments {limit : ℕ} (hfit : renderedBytes codec fragments ≤ limit + 2)
    (hf : f ∈ fragments) : f ∈ sourceFragments codec limit fragments := by
  have hp := perm_insertionSort (fun a b : ContextFragment => a.sourceLe b) fragments
  have hb : renderedBytes codec (fragments.insertionSort fun a b => a.sourceLe b) =
      renderedBytes codec fragments := (hp.map _).sum_nat
  refine mem_selectFragments ?_ (.inr (hp.mem_iff.2 hf))
  rw [hb, if_pos rfl]
  omega

namespace ContextPipeline

variable {p : ContextPipeline}

def fits (p : ContextPipeline) (critical : List ContextFragment) (available : ℕ)
    (candidate : String) : Bool :=
  match p.candidateTokens critical candidate with
  | .ok tokens => tokens ≤ available
  | .error _ => false

theorem take_ne_empty {summary : String} (hne : summary ≠ "") {n : ℕ} (hn : 1 ≤ n) :
    ofList (summary.toList.take n) ≠ "" := by
  intro h
  have hnil : summary.toList.take n = [] := by simpa using congrArg toList h
  rcases take_eq_nil_iff.1 hnil with hz | he
  · omega
  · exact hne (toList_eq_nil_iff.1 he)

section Fit

variable {summary : String} {critical : List ContextFragment} {available : ℕ}

theorem fitLoop_ne_empty (hne : summary ≠ "") {fuel low count : ℕ} (hlow : 1 ≤ low)
    {best found : String} (hb : best ≠ "")
    (h : p.fitLoop summary critical available fuel low count best = .ok found) : found ≠ "" := by
  induction fuel generalizing low count best with
  | zero => exact ok.inj h ▸ hb
  | succ _ ih =>
    cases count with
    | zero => exact ok.inj h ▸ hb
    | succ =>
      rw [fitLoop] at h
      split at h
      · cases h
      split at h
      · exact ih (by omega) (take_ne_empty hne (by omega)) h
      · exact ih hlow hb h

theorem fitLoop_finds (hne : summary ≠ "")
    (hfit : ∀ n ≤ 1, p.fits critical available (ofList (summary.toList.take n)) = true)
    {fuel count : ℕ} (hc : 2 ≤ count) (hfu : count ≤ fuel) {found : String}
    (h : p.fitLoop summary critical available fuel 0 count "" = .ok found) : found ≠ "" := by
  induction fuel using Nat.strong_induction_on generalizing count with
  | _ fuel ih =>
    obtain ⟨fuel, rfl⟩ : ∃ fuel', fuel = fuel' + 1 := ⟨fuel - 1, by omega⟩
    obtain ⟨count, rfl⟩ : ∃ count', count = count' + 1 := ⟨count - 1, by omega⟩
    rw [fitLoop, Nat.zero_add] at h
    split at h
    · cases h
    rename_i tokens ht
    split at h
    next hle =>
      by_cases hz : count / 2 = 0
      · obtain rfl : count = 1 := by omega
        obtain ⟨fuel, rfl⟩ : ∃ fuel', fuel = fuel' + 1 := ⟨fuel - 1, by omega⟩
        rw [hz, fitLoop] at h
        have hs := hfit 1 le_rfl
        unfold fits at hs
        split at h
        next f hf =>
          rw [show 0 + 1 + 0 / 2 = 1 from rfl] at hf
          rw [hf] at hs
          cases hs
        rename_i tokens' ht'
        rw [show 0 + 1 + 0 / 2 = 1 from rfl] at ht'
        rw [ht'] at hs
        rw [if_pos (of_decide_eq_true hs)] at h
        exact fitLoop_ne_empty hne (by omega) (take_ne_empty hne (by omega)) h
      · exact fitLoop_ne_empty hne (by omega) (take_ne_empty hne (by omega)) h
    next hgt =>
      -- a candidate that does not fit is neither of the first two
      have hl : 2 ≤ count / 2 := by
        by_contra hsm
        have hfi := hfit (count / 2) (by omega)
        unfold fits at hfi
        rw [ht] at hfi
        exact hgt (of_decide_eq_true hfi)
      exact ih fuel (Nat.lt_succ_self _) hl (by omega) h

theorem fitSummary_ok {kept : Option String}
    (h : p.fitSummary summary critical available = .ok kept) : ∃ best,
      p.fitLoop summary critical available (summary.length + 1) 0 (summary.length + 1) "" =
        .ok best ∧ kept = if best = "" then none else some best := by
  unfold fitSummary at h
  generalize p.fitLoop summary critical available (summary.length + 1) 0 (summary.length + 1) "" =
    loop at h ⊢
  cases loop with
  | error => cases h
  | ok best => exact ⟨best, rfl, (ok.inj h).symm⟩

theorem fitSummary_some (hne : summary ≠ "")
    (hfit : ∀ n ≤ 1, p.fits critical available (ofList (summary.toList.take n)) = true)
    {kept : Option String} (h : p.fitSummary summary critical available = .ok kept) :
    kept ≠ none := by
  obtain ⟨best, hl, rfl⟩ := fitSummary_ok h
  have hlen : 1 ≤ summary.length := by
    rw [Nat.one_le_iff_ne_zero]
    intro hz
    exact hne (String.length_eq_zero_iff.1 hz)
  have hb : best ≠ "" := fitLoop_finds hne hfit (by omega) le_rfl hl
  rw [if_neg hb]
  exact Option.some_ne_none _

theorem fitSummary_ne_empty {text : String}
    (h : p.fitSummary summary critical available = .ok (some text)) : text ≠ "" := by
  obtain ⟨_, -, hk⟩ := fitSummary_ok h
  split at hk
  · cases hk
  next hb => exact Option.some_inj.1 hk ▸ hb

end Fit

theorem validated_result {r r' : ContextBuildResult} (h : r.validate = .ok r') : r' = r := by
  unfold ContextBuildResult.validate at h
  repeat' split at h
  all_goals first
    | exact (ok.inj h).symm
    | cases h

def compresses (p : ContextPipeline) (r : ContextBuildRequest) : Bool :=
  r.forceCompaction ||
    match p.budget r.routeName, requestFragments p.codec p.recentMessages r with
    | .ok budget, .ok fragments =>
      match assembleMessages p.codec fragments with
      | .ok messages => budget.availableInputTokens < p.estimate messages
      | .error _ => false
    | _, _ => false

inductive Built (p : ContextPipeline) (r : ContextBuildRequest) (result : ContextBuildResult) : Prop
  | whole (fragments : List ContextFragment)
      (collected : requestFragments p.codec p.recentMessages r = .ok fragments)
      (assembled : assembleMessages p.codec fragments = .ok result.messages)
      (forced : r.forceCompaction = false) (summary : result.summary = none)
      (retained : result.retainedFragmentIds = fragments.map (·.id))
  | compacted (fragments : List ContextFragment) (budget : ContextRouteBudget)
      (compression? : Option ContextCompressionResult) (retained : List ContextFragment)
      (budgeted : p.budget r.routeName = .ok budget)
      (collected : requestFragments p.codec p.recentMessages r = .ok fragments)
      (compresses : p.compresses r = true)
      (compression : p.compression r (fragments.filter (!·.critical)) = .ok compression?)
      (fitted : p.fittedSummary compression? (fragments.filter (·.critical))
        budget.availableInputTokens = .ok result.summary)
      (kept : p.retainedFragments result.summary (fragments.filter (·.critical)) = .ok retained)
      (assembled : assembleMessages p.codec retained = .ok result.messages)
      (ids : result.retainedFragmentIds = retained.map (·.id))
      (usage : result.summary ≠ none → result.compressionInputTokens ≠ none ∧
        result.compressionOutputTokens ≠ none)

theorem fittedSummary_compressed {compression? : Option ContextCompressionResult}
    {critical : List ContextFragment} {available : ℕ} {text : String}
    (h : p.fittedSummary compression? critical available = .ok (some text)) :
    ∃ c, compression? = some c := by
  cases compression? with
  | none => cases h
  | some c => exact ⟨c, rfl⟩

theorem compression_inv {r : ContextBuildRequest} {noncritical : List ContextFragment}
    {compression? : Option ContextCompressionResult}
    (h : p.compression r noncritical = .ok compression?) :
    noncritical = [] ∧ compression? = none ∨ noncritical ≠ [] ∧ ∃ c, compression? = some c := by
  unfold compression at h
  split at h
  next hnil => exact .inl ⟨hnil, (ok.inj h).symm⟩
  rename_i hne
  split at h
  · cases h
  · refine .inr ⟨hne, ?_⟩
    generalize p.compress _ = answer at h
    cases answer with
    | error => cases h
    | ok c => exact ⟨c, (ok.inj h).symm⟩

theorem retainedFragments_ok {summary : Option String} {critical retained : List ContextFragment}
    (h : p.retainedFragments summary critical = .ok retained) :
    retained = summary.toList.map (summaryFragment "new-compacted-summary" · 60) ++ critical := by
  cases summary with
  | none => exact (ok.inj h).symm
  | some text =>
    rw [retainedFragments] at h
    cases hval : validateFragments p.codec [summaryFragment "new-compacted-summary" text 60] with
    | error => rw [hval] at h; cases h
    | ok =>
      rw [hval] at h
      rw [← ok.inj h, validateFragments_ok hval]
      rfl

theorem build_built {r : ContextBuildRequest} {result : ContextBuildResult}
    (h : p.build r = .ok result) : p.Built r result := by
  unfold build at h
  obtain ⟨budget, hb, h⟩ := except_bind_ok h
  obtain ⟨fragments, hf, h⟩ := except_bind_ok h
  obtain ⟨_, hms, h⟩ := except_bind_ok h
  dsimp only at h
  split at h
  next hw =>
    obtain rfl := validated_result h
    exact .whole fragments hf hms hw.2 rfl rfl
  rename_i hc
  have hcm : p.compresses r := by
    unfold compresses
    cases hfo : r.forceCompaction with
    | true => rfl
    | false =>
      simp only [hfo, and_true, not_le] at hc
      simpa only [Bool.false_or, hb, hf, hms, decide_eq_true_eq] using hc
  unfold compact at h
  obtain ⟨_, -, h⟩ := except_bind_ok h
  split at h
  · cases h
  obtain ⟨compression?, hco, h⟩ := except_bind_ok h
  obtain ⟨_, hsum, h⟩ := except_bind_ok h
  obtain ⟨retained, hr, h⟩ := except_bind_ok h
  obtain ⟨_, hms', h⟩ := except_bind_ok h
  obtain rfl := validated_result h
  refine .compacted fragments budget compression? retained hb hf hcm
    hco hsum hr hms' rfl fun hne => ?_
  obtain ⟨_, rfl⟩ := Option.ne_none_iff_exists'.1 hne
  obtain ⟨_, rfl⟩ := fittedSummary_compressed hsum
  simp

end ContextPipeline

end AgentPlatform
