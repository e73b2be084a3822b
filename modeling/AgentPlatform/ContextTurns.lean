/-
**Compactions and tool turns.**
-/

import AgentPlatform.AnsweredCalls
import AgentPlatform.ContextResults
import AgentPlatform.ContextSteps

namespace AgentPlatform

open AnsweredCalls ContextPipeline GatewayMessage List Option

open AnsweredCalls (due)
open History

def GatewayMessage.turnCalls (m : GatewayMessage) : List (Option String) :=
  if m.role = .assistant then m.toolCalls.map (some ·.id) else []

def GatewayMessage.turnAnswer (m : GatewayMessage) : Option (Option String) :=
  if m.role = .tool then some m.toolCallId else none

def inTurn (messages : List GatewayMessage) : Prop :=
  due GatewayMessage.turnCalls GatewayMessage.turnAnswer messages ≠ none

def UnsplitTurns (messages : List GatewayMessage) : Prop :=
  (∀ before result after, messages = before ++ result :: after → result.role = .tool →
    ∃ m ∈ before, m.announces result.toolCallId = true) ∧
  ∀ before m after, messages = before ++ m :: after → m.role = .assistant →
    ∀ call ∈ m.toolCalls, ∃ results rest, after = results ++ rest ∧
      (∀ t ∈ results, t.role = .tool) ∧ ((∃ t ∈ results, t.toolCallId = some call.id) ∨ rest = [])

variable {m : GatewayMessage} {messages : List GatewayMessage}

theorem turnAnswer_eq_none : m.turnAnswer = none ↔ m.role ≠ .tool := by
  unfold GatewayMessage.turnAnswer
  split <;> simp_all

theorem turnAnswer_eq_some {callId : Option String} :
    m.turnAnswer = some callId ↔ m.role = .tool ∧ m.toolCallId = callId := by
  unfold GatewayMessage.turnAnswer
  split <;> simp_all

theorem mem_turnCalls {callId : Option String} (h : callId ∈ m.turnCalls) :
    m.announces callId := by
  unfold GatewayMessage.turnCalls at h
  split at h
  next hr =>
    obtain ⟨call, hc, rfl⟩ := mem_map.1 h
    simp only [announces, hr, decide_true, Bool.true_and, any_eq_true]
    exact ⟨call, hc, decide_eq_true rfl⟩
  · exact absurd h not_mem_nil

theorem inTurn.unsplit (h : inTurn messages) : UnsplitTurns messages := by
  constructor
  · rintro before _ after rfl hr
    obtain ⟨m, hm, hc⟩ :=
      announced_before h (turnAnswer_eq_some.2 ⟨hr, rfl⟩)
    exact ⟨m, hm, mem_turnCalls hc⟩
  · rintro before m after rfl hr call hc
    have ha : m.turnAnswer = none := turnAnswer_eq_none.2 (by rw [hr]; decide)
    have hmem : some call.id ∈ m.turnCalls := by
      unfold GatewayMessage.turnCalls
      rw [if_pos hr]
      exact mem_map.2 ⟨call, hc, rfl⟩
    obtain ⟨results, rest, rfl, hre, hend⟩ := answered_after h ha hmem
    refine ⟨results, rest, rfl, fun t ht => ?_, hend.imp_left fun ⟨t, ht, hto⟩ => ?_⟩
    · by_contra hnot
      exact hre t ht (turnAnswer_eq_none.2 hnot)
    · exact ⟨t, ht, (turnAnswer_eq_some.1 hto).2⟩

theorem inTurn.dropSystem (h : inTurn messages) : inTurn (messages.filter (·.role ≠ .system)) := by
  obtain ⟨_, hks⟩ := ne_none_iff_exists'.1 h
  have hke := due_filter (p := fun m : GatewayMessage => m.role ≠ .system)
    (q := fun _ => true) (fun m k hk => ?_) (fun m k hk => ?_) hks
  · intro hn
    rw [hke] at hn
    cases hn
  · unfold GatewayMessage.turnCalls at hk
    split at hk
    next hr => simp [hr]
    · exact absurd hk not_mem_nil
  · simp [(turnAnswer_eq_some.1 hk).1]

theorem turnStart_boundary (messages : List GatewayMessage) (n : ℕ) (call : Option (Option String))
    (hn : n < messages.length) : turnStart messages n call = 0 ∨
      ∃ m, messages[turnStart messages n call]? = some m ∧ m.role ≠ .tool := by
  induction n generalizing call with
  | zero => exact .inl (by cases call <;> rfl)
  | succ n ih =>
    cases call with
    | none =>
      rw [turnStart, getElem?_eq_getElem hn]
      dsimp only
      split
      · exact ih _ (by omega)
      next hr => exact .inr ⟨_, getElem?_eq_getElem hn, hr⟩
    | some =>
      rw [turnStart, getElem?_eq_getElem hn, any_some]
      split
      next ha =>
        refine .inr ⟨_, getElem?_eq_getElem hn, fun hr => ?_⟩
        simp [announces, hr] at ha
      · exact ih _ (by omega)

theorem recent_inTurn {conversation : List GatewayMessage} (h : inTurn conversation)
    {recentMessages : ℕ} (hrec : 1 ≤ recentMessages) :
    inTurn (conversation.drop (recentConversationStart conversation recentMessages)) := by
  cases hlen : conversation.length with
  | zero =>
    rw [List.length_eq_zero_iff.1 hlen]
    simp [inTurn, due]
  | succ =>
    have hlt : conversation.length - recentMessages < conversation.length := by omega
    rcases turnStart_boundary conversation _ none hlt with hz | ⟨m, hm, hr⟩
    · rw [recentConversationStart, hz, drop_zero]
      exact h
    -- nothing is due where a message stands that is not a result
    obtain ⟨hi, rfl⟩ := List.getElem?_eq_some_iff.1 hm
    have hd := drop_eq_getElem_cons hi
    have hs := take_append_drop (turnStart conversation
      (conversation.length - recentMessages) none) conversation
    unfold inTurn at h ⊢
    rw [← hs, hd] at h
    have hc := due_of_not_answer h (turnAnswer_eq_none.2 hr)
    rw [recentConversationStart, hd, ← due_append_of_closed hc]
    exact h

/-- The message at `i` announces a call. -/
structure OpensTurn (messages : List GatewayMessage) (callId : Option String) (i j : ℕ) : Prop where
  before : i < j
  announcement : ∃ m, messages[i]? = some m ∧ m.announces callId = true
  results : ∀ k, i < k → k ≤ j → ∃ m, messages[k]? = some m ∧ m.role = .tool

def ToolWellFormed (messages : List GatewayMessage) : Prop :=
  ∀ j m, messages[j]? = some m → m.role = .tool → ∃ i, OpensTurn messages m.toolCallId i j

theorem OpensTurn.turnStart {callId : Option String} {i j : ℕ}
    (h : OpensTurn messages callId i (j + 1)) : turnStart messages j (some callId) = i := by
  obtain ⟨hij, ⟨a, ha, hann⟩, hres⟩ := h
  induction j with
  | zero =>
    obtain rfl : i = 0 := by omega
    rfl
  | succ j ih =>
    rw [AgentPlatform.turnStart]
    by_cases hi : i = j + 1
    · subst hi
      simp [ha, hann]
    · -- what stands between is a result, which announces nothing
      obtain ⟨t, ht, hrole⟩ := hres (j + 1) (by omega) (by omega)
      have hnot : t.announces callId = false := by simp [GatewayMessage.announces, hrole]
      rw [ht, any_some, if_neg (by simp [hnot])]
      exact ih (by omega) fun k hk hkj => hres k hk (by omega)

theorem recentConversationStart_cases (h : ToolWellFormed messages) {recentMessages : ℕ}
    (hrecent : 1 ≤ recentMessages) :
    recentConversationStart messages recentMessages = messages.length - recentMessages ∨
      ∃ callId, OpensTurn messages callId (recentConversationStart messages recentMessages)
        (messages.length - recentMessages) := by
  rw [recentConversationStart]
  cases hcut : messages.length - recentMessages with
  | zero => exact .inl rfl
  | succ cut =>
    have hlt : cut + 1 < messages.length := by omega
    rw [turnStart, getElem?_eq_getElem hlt]
    dsimp only
    split
    next hrole =>
      obtain ⟨i, hi⟩ := h _ _ (getElem?_eq_getElem hlt) hrole
      rw [hi.turnStart]
      exact .inr ⟨_, hi⟩
    · exact .inl rfl

/-- **The recent part keeps turns whole**. -/
theorem recentConversationStart_keeps_turns (messages : List GatewayMessage) (recentMessages : ℕ)
    (h : ToolWellFormed messages) (hrecent : 1 ≤ recentMessages) :
    (∀ j m, recentConversationStart messages recentMessages ≤ j → messages[j]? = some m →
      m.role = .tool → ∃ i, recentConversationStart messages recentMessages ≤ i ∧
        OpensTurn messages m.toolCallId i j) ∧
    recentConversationStart messages recentMessages ≤ messages.length - recentMessages ∧
    (recentConversationStart messages recentMessages < messages.length - recentMessages →
      ∃ callId, OpensTurn messages callId (recentConversationStart messages recentMessages)
        (messages.length - recentMessages)) := by
  have hcases := recentConversationStart_cases h hrecent
  refine ⟨fun j m hj hm hrole => ?_, ?_, fun hlt => hcases.resolve_left (by omega)⟩
  · obtain ⟨i, hi⟩ := h j m hm hrole
    refine ⟨i, ?_, hi⟩
    by_contra hbefore
    -- the part would start with a result
    obtain ⟨t, ht, htool⟩ := hi.results _ (by omega) hj
    have hsome : j < messages.length := (List.getElem?_eq_some_iff.1 hm).1
    have hpart : messages.length - recentMessages < messages.length := by omega
    rcases turnStart_boundary messages _ none hpart with hz | ⟨t', ht', hnot⟩
    · rw [recentConversationStart, hz] at hbefore
      omega
    · rw [recentConversationStart, ht'] at ht
      exact hnot (Option.some_inj.1 ht ▸ htool)
  · rcases hcases with heq | ⟨callId, hopen⟩
    · exact heq.le
    · exact hopen.before.le

theorem recentConversationStart_keeps_turns_cut :
    let call := fun id => ({ id, name := "read", arguments := .nil } : GatewayToolCall)
    let messages := [systemMessage "s", assistantMessage "" [call "a", call "b"],
      toolMessage "b" none none, toolMessage "a" none none]
    recentConversationStart messages 1 = 1 ∧
      recentConversationStart messages 1 ≤ messages.length - 1 := by
  intro call messages
  have hwell : ToolWellFormed messages := by
    have hopen : ∀ j id, 1 < j → j ≤ 3 → id = "a" ∨ id = "b" →
        OpensTurn messages (some id) 1 j := by
      intro j id hj hle hid
      refine ⟨hj, ⟨_, rfl, by rcases hid with rfl | rfl <;> rfl⟩, fun k hk hkj => ?_⟩
      obtain rfl | rfl : k = 2 ∨ k = 3 := by omega
      · exact ⟨_, rfl, rfl⟩
      · exact ⟨_, rfl, rfl⟩
    intro j m hm hrole
    match j, hm with
    | 0, rfl => cases hrole
    | 1, rfl => cases hrole
    | 2, rfl => exact ⟨1, hopen 2 "b" (by omega) (by omega) (.inr rfl)⟩
    | 3, rfl => exact ⟨1, hopen 3 "a" (by omega) (by omega) (.inl rfl)⟩
  exact ⟨rfl, (recentConversationStart_keeps_turns messages 1 hwell (by omega)).2.1⟩

theorem inTurn.assembled {codec : ContextCodec} {fragments : List ContextFragment}
    (h : assembleMessages codec fragments = .ok messages) (ht : inTurn (spoken fragments))
    : inTurn messages := by
  rw [assembleMessages_ok h]
  split
  · exact ht
  · unfold inTurn
    rw [due_append_of_closed]
    · exact ht
    · rfl

theorem ContextPipeline.build_inTurn {p : ContextPipeline} {r : ContextBuildRequest}
    {result : ContextBuildResult} (h : p.build r = .ok result) (ht : inTurn r.conversation) :
    inTurn result.messages := by
  cases build_built h with
  | whole _ collected assembled =>
    refine .assembled assembled ?_
    rw [spoken_requestFragments collected]
    exact ht.dropSystem
  | compacted fragments _ _ retained _ collected _ _ _ kept assembled =>
      refine .assembled assembled ?_
      have hs : spoken retained = spoken (fragments.filter (·.critical)) := by
        rw [retainedFragments_ok kept, spoken_append,
          spoken_eq_nil fun f hf => ?_, nil_append]
        obtain ⟨_, -, rfl⟩ := mem_map.1 hf
        rfl
      rw [hs, spoken_critical collected]
      exact (recent_inTurn ht p.recent).dropSystem

def SessionMessage.turnCalls (m : SessionMessage) : List (ℕ × Option String) :=
  m.row.message.turnCalls.map (m.run, ·)

def SessionMessage.turnAnswer (m : SessionMessage) : Option (ℕ × Option String) :=
  m.row.message.turnAnswer.map (m.run, ·)

def openIn (rows : List SessionMessage) : Option (List (ℕ × Option String)) :=
  due SessionMessage.turnCalls SessionMessage.turnAnswer rows

theorem openIn_inTurn {rows : List SessionMessage} (h : openIn rows ≠ none) :
    inTurn (rows.map (·.row.message)) := by
  obtain ⟨ks, hks⟩ := ne_none_iff_exists'.1 h
  have hms : due GatewayMessage.turnCalls GatewayMessage.turnAnswer
      (rows.map (·.row.message)) = some (ks.map (·.2)) := by
    refine due_map (fun m => ?_) (fun m => ?_) hks
    · simp [SessionMessage.turnCalls]
    · simp [SessionMessage.turnAnswer]
  intro hn
  rw [hms] at hn
  cases hn

namespace ContextSession

variable {s s' : ContextSession} {added : List SessionMessage}

def openCalls (s : ContextSession) : Option (List (ℕ × Option String)) := openIn s.visible

def readsAbove (s : ContextSession) : SessionOp → Bool
  | .advance id _ =>
    match (s.builds id).map (·.stage) with
    | some (BuildStage.scheduled (some _) _) => true
    | _ => false
  | _ => false

def BetweenTurns (s : ContextSession) (op : SessionOp) : Prop :=
  (s.takesWatermark op = true → s.openCalls = some []) ∧
    (s.readsAbove op = true → s.openCalls ≠ none)

instance (s : ContextSession) (op : SessionOp) : Decidable (s.BetweenTurns op) :=
  inferInstanceAs (Decidable (_ ∧ _))

def staysOn (s s' : ContextSession) (run : ℕ) : Bool :=
  s.runs[run]?.map (·.run.executionEpoch) = s'.runs[run]?.map (·.run.executionEpoch)

theorem onBranch_eq_staysOn {m : SessionMessage} (hm : m ∈ s.visible) :
    s'.onBranch m = s.staysOn s' m.run := by
  obtain ⟨_, hs, hep⟩ := onBranch_iff.1 (mem_visible.1 hm).2
  unfold onBranch staysOn
  rw [hs, ← hep]
  cases s'.runs[m.run]? with
  | none => simp
  | some => simp [eq_comm]

theorem Extends.closed (h : s.Extends s' added) (hs : s.WellFormed) {n : ℕ}
    (hn : n < s.nextSequence) (hc : openIn (s.visible.filter (·.row.sequence ≤ n)) = some []) :
    openIn (s'.visible.filter (·.row.sequence ≤ n)) = some [] := by
  have hco : (s.visible.filter (·.row.sequence ≤ n)).filter s'.onBranch =
      (s.visible.filter (·.row.sequence ≤ n)).filter fun m => s.staysOn s' m.run :=
    filter_congr fun m hm => onBranch_eq_staysOn (mem_filter.1 hm).1
  rw [h.visible_filter hs hn, hco]
  refine due_filter (q := fun k => s.staysOn s' k.1) (fun m k hk => ?_)
    (fun m k hk => ?_) hc
  · obtain ⟨callId, -, rfl⟩ := mem_map.1 hk
    rfl
  · obtain ⟨callId, -, rfl⟩ := map_eq_some_iff.1 hk
    rfl

theorem closed_sourceSequence (hpos : ∀ m ∈ s.messages, 1 ≤ m.row.sequence)
    (ho : s.openCalls = some []) (after : Option ℕ) :
    openIn (s.visible.filter (·.row.sequence ≤ s.sourceSequence after)) = some [] := by
  by_cases hn : s.visibleAfter after = []
  · have he : s.visible.filter (·.row.sequence ≤ s.sourceSequence after) = [] := by
      refine filter_eq_nil_iff.2 fun m hm => ?_
      have := hpos m (mem_visible.1 hm).1
      simp only [sourceSequence, hn, map_nil, foldl_nil, decide_eq_true_eq]
      omega
    rw [he]
    rfl
  · have hall : s.visible.filter (·.row.sequence ≤ s.sourceSequence after) = s.visible := by
      refine filter_eq_self.2 fun m hm => decide_eq_true ?_
      have hle : ∀ m' ∈ s.visibleAfter after, m'.row.sequence ≤ s.sourceSequence after := by
        intro m' hm'
        have hmem : m'.row.sequence ∈ (s.visibleAfter after).map (·.row.sequence) :=
          mem_map.2 ⟨m', hm', rfl⟩
        exact le_foldl_max hmem 0
      by_cases ha : after.all (· < m.row.sequence) = true
      · exact hle m (mem_filter.2 ⟨hm, ha⟩)
      obtain ⟨m', hm'⟩ := exists_mem_of_ne_nil _ hn
      have hlow := (mem_filter.1 hm').2
      have hh := hle m' hm'
      cases after with
      | none => exact absurd rfl ha
      | some =>
        simp only [all_some, decide_eq_true_eq, not_lt] at ha hlow
        omega
    rw [hall]
    exact ho

theorem inTurn_listMessages (hs : s.WellFormed) (ho : s.openCalls ≠ none) {n : ℕ}
    (hc : openIn (s.visible.filter (·.row.sequence ≤ n)) = some []) {through : Option ℕ}
    {limit : ℕ} {rows : List SessionMessage}
    (h : s.listMessages (some n) through limit = .ok rows) : inTurn (rows.map (·.row.message)) := by
  have ha : openIn (s.visibleAfter (some n)) ≠ none := by
    unfold openCalls openIn at ho
    rw [← filter_le_append_lt hs.visible_numbered n,
      due_append_of_closed hc] at ho
    exact ho
  refine openIn_inTurn ?_
  rw [listMessages_ok h]
  cases through with
  | none =>
    have hall : (s.visibleAfter (some n)).filter (fun m => (none : Option ℕ).all
        (m.row.sequence ≤ ·)) = s.visibleAfter (some n) := filter_eq_self.2 fun _ _ => rfl
    rw [hall]
    exact ha
  | some n' =>
    have hn : (s.visibleAfter (some n)).Pairwise (·.row.sequence < ·.row.sequence) :=
      hs.visible_numbered.filter _
    unfold openIn at ha ⊢
    rw [← filter_le_append_lt hn n'] at ha
    exact due_ne_none_left ha

structure TurnsKept (s : ContextSession) : Prop where
  wellFormed : s.WellFormed
  positive : ∀ m ∈ s.messages, 1 ≤ m.row.sequence
  closed : ∀ k ∈ s.compactions,
    openIn (s.visible.filter (·.row.sequence ≤ k.sourceMessageSequence)) = some []
  conversations : ∀ id b c, s.builds id = some b → b.stage.context = some c → c.latest ≠ none →
    inTurn c.request.conversation
  results : ∀ id b c result, s.builds id = some b → resultOf b c result → c.latest ≠ none →
    inTurn result.messages

def TurnsUnsplit (s : ContextSession) : Prop :=
  ∀ id b c result k, s.builds id = some b → b.stage = .returned c result → c.latest = some k →
    UnsplitTurns result.messages

theorem CompactionMoves.source {op : SessionOp} {rows : List ContextCompaction}
    (h : s.CompactionMoves op rows) {k : ContextCompaction} (hk : k ∈ rows) :
    (∃ k' ∈ s.compactions, k'.sourceMessageSequence = k.sourceMessageSequence) ∨
      s.takesWatermark op = true ∧ ∃ after, k.sourceMessageSequence = s.sourceSequence after := by
  cases h with
  | kept same => exact .inl ⟨k, same ▸ hk, rfl⟩
  | requested _ after takes _ source _ stored =>
    rw [stored] at hk
    rcases mem_append.1 hk with hold | hnew
    · exact .inl ⟨k, hold, rfl⟩
    · obtain rfl := mem_singleton.1 hnew
      exact .inr ⟨takes, after, source⟩
  | finished row _ _ mem _ stored =>
    rw [stored] at hk
    obtain ⟨k', hk', rfl⟩ := mem_map.1 hk
    split
    · exact .inl ⟨row, mem, rfl⟩
    · exact .inl ⟨k', hk', rfl⟩
  | superseded _ stored =>
    rw [stored] at hk
    obtain ⟨k', hk', rfl⟩ := mem_map.1 hk
    refine .inl ⟨k', hk', ?_⟩
    split <;> rfl

theorem TurnsKept.apply (h : s.TurnsKept) {op : SessionOp} (hop : s.BetweenTurns op) :
    (s.apply op).TurnsKept := by
  obtain ⟨_, -, he, hco⟩ := s.apply_steps op
  have hrow := hco.rows h.wellFormed
  have hcn : ∀ id b c, (s.apply op).builds id = some b → b.stage.context = some c →
      c.latest ≠ none → inTurn c.request.conversation := by
    intro id b' c hb' hc hl
    obtain ⟨b, hb, hct, -⟩ | ⟨env, b, rfl, hb, hst, -, hli, hreq⟩ :=
      apply_context hb' hc
    · exact h.conversations id b c hb hct hl
    obtain ⟨k, hk⟩ := ne_none_iff_exists'.1 hl
    have hr : s.readsAbove (.advance id env) := by
      simp only [readsAbove, hb, map_some, hst, hk]
    obtain ⟨hmem, hsum⟩ := h.wellFormed.latest id b hb k (by rw [hst]; exact hk)
    have hcv : c.request.conversation = c.rows.map (·.row.message) := by
      have hp : b.previousSummary c.latest = k.summary := by rw [hk]; rfl
      rw [hreq]
      refine if_neg fun hn => ?_
      rw [hp] at hn
      exact isSome_iff_ne_none.1 hsum hn.2
    rw [hcv]
    rw [hk] at hli
    exact inTurn_listMessages h.wellFormed (hop.2 hr) (h.closed k hmem) hli
  refine
    { wellFormed := h.wellFormed.apply op
      positive := ?_
      closed := ?_
      conversations := hcn
      results := ?_ }
  · intro m hm
    rw [he.messages] at hm
    rcases mem_append.1 hm with hold | hnew
    · exact h.positive m hold
    · exact (Nat.succ_le_succ (Nat.zero_le _)).trans (he.numbers m hnew)
  · intro k hk
    refine he.closed h.wellFormed (hrow.2 k hk) ?_
    obtain ⟨k', hk', hs⟩ | ⟨ht, after, hs⟩ := hco.source hk
    · rw [← hs]
      exact h.closed k' hk'
    · rw [hs]
      exact closed_sourceSequence h.positive (hop.1 ht) after
  · intro id b' c result hb' hre hl
    obtain ⟨b, hb, hbe⟩ | ⟨env, b, -, hb, hst, hbu⟩ := apply_result hb' hre
    · exact h.results id b c result hb hbe hl
    · refine build_inTurn hbu (h.conversations id b c hb ?_ hl)
      rw [hst]
      rfl

theorem turnsKept_empty : ({} : ContextSession).TurnsKept where
  wellFormed := wellFormed_empty
  positive := fun _ hm => absurd hm not_mem_nil
  closed := fun _ hk => absurd hk not_mem_nil
  conversations := fun _ _ _ hb => by cases hb
  results := fun _ _ _ _ hb => by cases hb

end ContextSession

/-- **A context that is built above a watermark splits no turn**. -/
theorem compaction_keeps_turns (ops : List SessionOp)
    (hops : Admissible ContextSession.apply ContextSession.BetweenTurns {} ops) :
    (ops.foldl ContextSession.apply {}).TurnsUnsplit := by
  have hkept := hops.invariant ContextSession.TurnsKept (fun _ _ h hop => h.apply hop)
    ContextSession.turnsKept_empty
  intro id b c result k hb hstage hlatest
  exact (hkept.results id b c result hb (.inl hstage) (by rw [hlatest]; simp)).unsplit

def compactedAfter (before after : List GatewayMessage) : List SessionOp :=
  [SessionOp.submit (sessionSubmission 0 "task")] ++ takeRun 0 1 ++
    [journal 0 1 1 before, loseRun 0 1, SessionOp.requestCompaction 50 "manual" "default" 160] ++
    takeRun 0 2 ++ buildContext scriptedRecovery 0 0 2 5 (scriptedBuild 200 [scriptedMemory]) ++
    [journal 0 2 (before.length + 1) after, loseRun 0 2] ++ takeRun 0 3 ++
    buildContext scriptedRecovery 1 0 3 5 (scriptedBuild 300)

theorem compaction_keeps_turns_after_turn :
    ((compactedAfter (scriptedTurn "call-1") (scriptedTurn "call-2")).foldl
        ContextSession.apply {}).built 1 =
      some (systemMessage ("Previous compacted context:\nsummary\n\n" ++ scriptedInstructions) ::
        scriptedTurn "call-2") ∧
    ((compactedAfter (scriptedTurn "call-1") (scriptedTurn "call-2")).foldl
        ContextSession.apply {}).TurnsUnsplit :=
  ⟨by decide +kernel, compaction_keeps_turns _ (by decide +kernel)⟩

theorem ContextSession.TurnsUnsplit.built {s : ContextSession} (h : s.TurnsUnsplit) {id : ℕ}
    (hbu : s.built id = some messages)
    (ha : ((s.builds id).bind (·.stage.latest)).isSome) : UnsplitTurns messages := by
  obtain ⟨result, hre, rfl⟩ := map_eq_some_iff.1 hbu
  obtain ⟨b, hb, hst⟩ := bind_eq_some_iff.1 hre
  rw [hb, bind_some] at ha
  cases hr : b.stage with
  | returned c result' =>
    rw [hr] at hst ha
    obtain rfl : result' = result := some_inj.1 hst
    obtain ⟨k, hk⟩ := isSome_iff_exists.1 ha
    exact h id b c result' k hb hr hk
  | _ =>
    rw [hr] at hst
    cases hst

def compactedWithin : List SessionOp :=
  compactedAfter ((scriptedTurn "call-1").take 1) ((scriptedTurn "call-1").drop 1)

theorem compaction_splits_turn : (compactedWithin.foldl ContextSession.apply {}).built 1 =
        some [systemMessage ("Previous compacted context:\nsummary\n\n" ++ scriptedInstructions),
          toolMessage "call-1" (some .nil) none] ∧
      ¬ (compactedWithin.foldl ContextSession.apply {}).TurnsUnsplit := by
  have hbuilt : (compactedWithin.foldl ContextSession.apply {}).built 1 =
      some [systemMessage ("Previous compacted context:\nsummary\n\n" ++ scriptedInstructions),
        toolMessage "call-1" (some .nil) none] := by decide +kernel
  refine ⟨hbuilt, fun h => ?_⟩
  obtain ⟨_, hm, hannounces⟩ := (h.built hbuilt (by decide +kernel)).1
    [systemMessage ("Previous compacted context:\nsummary\n\n" ++ scriptedInstructions)]
    (toolMessage "call-1" (some .nil) none) [] rfl rfl
  rw [mem_singleton.1 hm] at hannounces
  cases hannounces

end AgentPlatform
