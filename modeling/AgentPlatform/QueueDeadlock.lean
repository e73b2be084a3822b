/-
**When the queue's transactions can deadlock.**
-/

import AgentPlatform.QueueLocks

namespace AgentPlatform

open KeyedTable QueueRow QueueTables QueueTxn

open RowLocking

def QueueRow.tenant? : QueueRow → Option Uuid
  | .quota τ => some τ
  | _ => none

def QueueRow.worker? : QueueRow → Option String
  | .worker w => some w
  | _ => none

def QueueTxn.Ordered (_ : QueueTables) : QueueTxn → QueueRow → Prop
  | .claim _ st, .quota τ => ∀ τ', .quota τ' ∈ st.held → τ' < τ
  | .recoverExpired _ st, .worker w => ∀ w', .worker w' ∈ st.held → w' < w
  | .create _ st, _ => st.stage ≠ .recheck ∧ st.stage ≠ .insertRun
  | _, _ => True

instance (t : QueueTables) : ∀ (p : QueueTxn) (r : QueueRow), Decidable (p.Ordered t r)
  | .claim _ st, .quota τ =>
    decidable_of_iff (∀ r ∈ st.held, ∀ τ' ∈ r.tenant?, τ' < τ) <| by
      constructor
      · intro h τ' hτ'
        exact h _ hτ' τ' rfl
      intro h r hr τ' hτ'
      cases r with
      | quota =>
        cases hτ'
        exact h _ hr
      | _ => cases hτ'
  | .recoverExpired _ st, .worker w =>
    decidable_of_iff (∀ r ∈ st.held, ∀ w' ∈ r.worker?, w' < w) <| by
      constructor
      · intro h w' hw'
        exact h _ hw' w' rfl
      intro h r hr w' hw'
      cases r with
      | worker =>
        cases hw'
        exact h _ hr
      | _ => cases hw'
  | .create _ st, _ => inferInstanceAs (Decidable (st.stage ≠ .recheck ∧ st.stage ≠ .insertRun))
  | .claim _ _, .worker _ | .claim _ _, .run _ | .claim _ _, .lease _ | .claim _ _, .workspace _
  | .claim _ _, .session _ | .claim _ _, .admission | .recoverExpired _ _, .quota _
  | .recoverExpired _ _, .run _ | .recoverExpired _ _, .lease _ | .recoverExpired _ _, .workspace _
  | .recoverExpired _ _, .session _ | .recoverExpired _ _, .admission | .finish _ _, _ =>
    isTrue trivial

/-- **What a waiting transaction waits for, and what it holds.** -/
def QueueTxn.Awaits (t : QueueTables) : QueueTxn → QueueRow → Prop
  | .claim _ st, r => (∃ w, r = .worker w) ∧ st.held = [] ∨
      ∃ τ, r = .quota τ ∧ ∀ τ', .quota τ' ∈ st.held → τ' < τ
  | .create call st, r => ((∃ k, r = .run k) ∨ r = call.sessionRow) ∧ st.held = [] ∨
      (∃ τ, r = .quota τ) ∧ (∀ r' ∈ st.held, r' = call.sessionRow) ∨
      r = .admission ∧ ∀ r' ∈ st.held, r' = call.sessionRow ∨ ∃ τ, r' = .quota τ
  | .finish _ st, r => (∃ k, r = .lease k) ∧ st.held = [] ∨
      (∃ k, r = .workspace k ∧ t.Owns st.held k) ∨ ∃ w, r = .worker w
  | .recoverExpired _ st, r => (∃ k, r = .workspace k ∧ t.Owns st.held k) ∨
      ∃ w, r = .worker w ∧ ∀ w', .worker w' ∈ st.held → w' < w

variable {t : QueueTables} {q : QueueTxn} {r : QueueRow} {k : Uuid × Uuid}

theorem QueueTxn.Awaits.others {t' : QueueTables} {held : List QueueRow} (hv : t.Valid)
    (hke : t.Keeps t' held) (ha : ∀ r ∈ held, r ∉ q.held) (h : q.Awaits t r)
    : q.Awaits t' r := by
  cases q with
  | claim | create => exact h
  | finish =>
    rcases h with h₁ | ⟨k, hk, hown⟩ | h₃
    · exact .inl h₁
    · exact .inr (.inl ⟨k, hk, hke.owns hv ha hown⟩)
    · exact .inr (.inr h₃)
  | recoverExpired =>
    rcases h with ⟨k, hk, hown⟩ | h₂
    · exact .inl ⟨k, hk, hke.owns hv ha hown⟩
    · exact .inr h₂

theorem QueueTxn.Guarded.not_holds_run (hv : t.Valid) (hq : q.Guarded t) {token : Uuid}
    (hl : t.LeaseToken k token) (hf : .lease k ∉ q.held) : .run k ∉ q.held := by
  intro hr
  cases q with
  | claim _ st =>
    have hg : st.Guarded t := hq
    rcases hg.kinds _ hr with ⟨_, ⟨⟩⟩ | ⟨k', ⟨⟩, hqu⟩ | ⟨_, ⟨⟩⟩ | ⟨_, ⟨⟩, -⟩
    exact hv.not_queued hl hqu
  | create call st =>
    have hg : st.Guarded call := hq
    rcases hg.kinds _ hr with h | h | ⟨h, -⟩ <;> cases h
  | finish call st =>
    have hg : st.Guarded t call := hq
    rcases hg.kinds _ hr with h | h | ⟨_, ⟨⟩, -⟩
    · cases h
    cases h
    refine hf (hg.lease ?_).1
    intro hst
    have hh : st.held = [] := hg.start hst
    have hmem : QueueRow.run call.key ∈ st.held := hr
    rw [hh] at hmem
    cases hmem
  | recoverExpired _ st =>
    have hg : st.Guarded t := hq
    rcases hg.kinds _ hr with ⟨_, ⟨⟩⟩ | ⟨_, ⟨⟩⟩ | ⟨k', ⟨⟩, hre | hh⟩ | ⟨_, ⟨⟩, -⟩
    · exact hv.not_retrying hl hre
    · exact hf hh

theorem QueueTxn.Guarded.not_holds_workspace (hq : q.Guarded t)
    (hn : t.fleet.workspace? k.1 k.2 = none) (hf : .quota k.1 ∉ q.held) :
    .workspace k ∉ q.held := by
  have hrow : ∀ token, ¬ t.WorkspaceToken k token := by
    rintro token ⟨_, hw, rfl, -⟩
    have hs := workspace?_isSome_of_mem hw
    rw [hn] at hs
    cases hs
  intro hr
  cases q with
  | claim _ st =>
    have hg : st.Guarded t := hq
    rcases hg.kinds _ hr with ⟨_, ⟨⟩⟩ | ⟨_, ⟨⟩, -⟩ | ⟨_, ⟨⟩⟩ | ⟨k', ⟨⟩, hs | hqu⟩
    · rw [hn] at hs
      cases hs
    · exact hf hqu
  | create call st =>
    have hg : st.Guarded call := hq
    rcases hg.kinds _ hr with h | h | ⟨h, -⟩ <;> cases h
  | finish call st =>
    have hg : st.Guarded t call := hq
    rcases hg.kinds _ hr with h | h | ⟨k', ⟨⟩, hw⟩
    · cases h
    · cases h
    · exact hrow _ hw
  | recoverExpired _ st =>
    have hg : st.Guarded t := hq
    rcases hg.kinds _ hr with ⟨_, ⟨⟩⟩ | ⟨_, ⟨⟩⟩ | ⟨_, ⟨⟩, -⟩ | ⟨k', ⟨⟩, key, token, -, -, hw⟩
    exact hrow _ hw

theorem ClaimState.Guarded.awaits {call : ClaimCall} {st : ClaimState} (hg : st.Guarded t)
    (hq : q.Guarded t) (ha : ∀ r ∈ st.held, r ∉ q.held) (hreq : st.request t call = some r)
    (hh : r ∈ q.held) (hok : (QueueTxn.claim call st).Ordered t r) :
    (QueueTxn.claim call st).Awaits t r := by
  cases hst : st.stage with
  | lockWorker =>
    simp only [ClaimState.request, hst, map_eq_some_iff] at hreq
    obtain ⟨-, -, rfl⟩ := hreq
    exact .inl ⟨⟨_, rfl⟩, hg.start hst⟩
  | insertQuota =>
    simp only [ClaimState.request, hst] at hreq
    split at hreq
    · cases hreq
    · cases hreq
      exact .inr ⟨_, rfl, hok⟩
  | lockQuota =>
    simp only [ClaimState.request, hst] at hreq
    cases hreq
    exact .inr ⟨_, rfl, hok⟩
  | insertWorkspace c =>
    simp only [ClaimState.request, hst] at hreq
    split at hreq
    · cases hreq
    rename_i hn
    cases hreq
    have hv : lookup WorkspaceLeaseRecord.key c.workspaceKey
        (t.fleet.workspaces ++ st.workspaces) = none := by
      simpa [ClaimState.view, Fleet.workspace?, Candidate.workspaceKey] using hn
    rw [lookup_append, Option.or_eq_none_iff] at hv
    refine absurd hh (hq.not_holds_workspace hv.1 ?_)
    exact ha _ (hg.counting c (by rw [hst]; rfl))
  | selectCandidate | countActive | lockWorkspace | take =>
    simp only [ClaimState.request, hst] at hreq
    cases hreq

theorem CreateState.Guarded.awaits {call : CreateCall} {st : CreateState} (hg : st.Guarded call)
    (ha : ∀ r ∈ st.held, r ∉ q.held) (hreq : st.request t call = some r)
    (hh : r ∈ q.held) (hok : (create call st).Ordered t r)
    : (create call st).Awaits t r := by
  have hmin : r ∉ st.held := fun h => ha r h hh
  have hq : r = .quota call.submission.tenantId → st.stage ≠ .lockAdmission →
      st.stage ≠ .insertRun → ∀ r' ∈ st.held, r' = call.sessionRow := by
    rintro rfl h₁ h₂ r' hr'
    rcases hg.kinds r' hr' with hs | rfl | ⟨-, hst⟩
    · exact hs
    · exact absurd hr' hmin
    · exact absurd hst (by simp [h₁, h₂])
  have had : r = .admission → ∀ r' ∈ st.held, r' = call.sessionRow ∨ ∃ τ, r' = .quota τ := by
    rintro rfl r' hr'
    rcases hg.kinds r' hr' with hs | rfl | ⟨rfl, -⟩
    · exact .inl hs
    · exact .inr ⟨_, rfl⟩
    · exact absurd hr' hmin
  cases hst : st.stage with
  | findExisting =>
    simp only [CreateState.request, hst, map_eq_some_iff] at hreq
    obtain ⟨c, -, rfl⟩ := hreq
    exact .inl ⟨.inl ⟨_, rfl⟩, hg.start (.inl hst)⟩
  | lockSession =>
    simp only [CreateState.request, hst, map_eq_some_iff] at hreq
    obtain ⟨c, -, rfl⟩ := hreq
    exact .inl ⟨.inr rfl, hg.start (.inr hst)⟩
  | insertQuota =>
    simp only [CreateState.request, hst] at hreq
    split at hreq
    · cases hreq
    · cases hreq
      exact .inr (.inl ⟨⟨_, rfl⟩, hq rfl (by simp [hst]) (by simp [hst])⟩)
  | lockQuota =>
    simp only [CreateState.request, hst] at hreq
    cases hreq
    exact .inr (.inl ⟨⟨_, rfl⟩, hq rfl (by simp [hst]) (by simp [hst])⟩)
  | insertAdmission =>
    simp only [CreateState.request, hst] at hreq
    split at hreq
    · cases hreq
    · cases hreq
      exact .inr (.inr ⟨rfl, had rfl⟩)
  | lockAdmission =>
    simp only [CreateState.request, hst] at hreq
    cases hreq
    exact .inr (.inr ⟨rfl, had rfl⟩)
  | recheck => exact absurd hst hok.1
  | insertRun => exact absurd hst hok.2

theorem FinishState.Guarded.awaits {call : FinishCall} {st : FinishState} (hv : t.Valid)
    (hg : st.Guarded t call) (hq : q.Guarded t) (ha : ∀ r ∈ st.held, r ∉ q.held)
    (hreq : st.request t call = some r) (hh : r ∈ q.held)
    : (QueueTxn.finish call st).Awaits t r := by
  cases hst : st.stage with
  | lockLease =>
    simp only [FinishState.request, hst, map_eq_some_iff] at hreq
    obtain ⟨-, -, rfl⟩ := hreq
    exact .inl ⟨⟨_, rfl⟩, hg.start hst⟩
  | lockRun =>
    simp only [FinishState.request, hst, map_eq_some_iff] at hreq
    obtain ⟨-, -, rfl⟩ := hreq
    obtain ⟨hl, ht⟩ := hg.lease (by simp [hst])
    exact absurd hh (hq.not_holds_run hv ht (ha _ hl))
  | lockWorkspace =>
    simp only [FinishState.request, hst, map_eq_some_iff] at hreq
    obtain ⟨w, hw, rfl⟩ := hreq
    obtain ⟨hl, ht⟩ := hg.lease (by simp [hst])
    exact .inr (.inl ⟨w.key, rfl, call.key, _, hl, ht,
      workspaceToken_of_workspaceOf hw⟩)
  | lockWorker =>
    simp only [FinishState.request, hst, map_eq_some_iff] at hreq
    obtain ⟨-, -, rfl⟩ := hreq
    exact .inr (.inr ⟨_, rfl⟩)

theorem RecoverState.Guarded.awaits {call : RecoverCall} {st : RecoverState} (hv : t.Valid)
    (hg : st.Guarded t) (hq : q.Guarded t) (ha : ∀ r ∈ st.held, r ∉ q.held)
    (hreq : st.request t = some r) (hh : r ∈ q.held)
    (hok : (QueueTxn.recoverExpired call st).Ordered t r) :
    (QueueTxn.recoverExpired call st).Awaits t r := by
  have hl : ∀ key ∈ st.stage.rest, .lease key ∈ st.held ∧ ∃ token, t.LeaseToken key token :=
    fun key hkey => hg.leases key (hg.rest key hkey)
  cases hst : st.stage with
  | lockRetries | lockLeases =>
    simp only [RecoverState.request, hst] at hreq
    cases hreq
  | lockRun keys =>
    cases keys with
    | nil =>
      simp only [RecoverState.request, hst] at hreq
      cases hreq
    | cons key =>
      simp only [RecoverState.request, hst, map_eq_some_iff] at hreq
      obtain ⟨-, -, rfl⟩ := hreq
      obtain ⟨hmin, token, ht⟩ := hl key (by rw [hst]; exact mem_cons_self ..)
      exact absurd hh (hq.not_holds_run hv ht (ha _ hmin))
  | lockWorkspace key =>
    simp only [RecoverState.request, hst, RecoverState.workspace, map_eq_some_iff,
      bind_eq_some_iff, RecoverState.leaseRow] at hreq
    obtain ⟨w, ⟨row, ⟨r', hr', hrow⟩, hw⟩, rfl⟩ := hreq
    obtain ⟨hmin, -⟩ := hl key (by rw [hst]; exact mem_cons_self ..)
    exact .inl ⟨w.key, rfl, key, row.leaseToken, hmin, ⟨r', row, hr', hrow, rfl⟩,
      workspaceToken_of_workspaceOf hw⟩
  | lockWorker =>
    simp only [RecoverState.request, hst, map_eq_some_iff] at hreq
    obtain ⟨w, -, rfl⟩ := hreq
    exact .inr ⟨_, rfl, hok⟩

def QueueTxn.Placed (t : QueueTables) (p : QueueTxn) (waiting : Option QueueRow) : Prop :=
  p.Guarded t ∧ ∀ r, waiting = some r → p.Awaits t r

theorem placed_nonInterfering :
    queueProtocol.NonInterfering (fun t p r => p.Ordered t r) QueueTables.Valid
      fun t p waiting => p.Placed t waiting where
  start := fun call _ => ⟨guarded_start _ call, by rintro r ⟨⟩⟩
  wait := by
    rintro t p q r w w' hv ⟨hp, -⟩ ⟨hq, -⟩ ha hreq hh hok
    refine ⟨hp, ?_⟩
    rintro _ ⟨⟩
    cases p with
    | claim => exact ClaimState.Guarded.awaits hp hq ha hreq hh hok
    | create => exact CreateState.Guarded.awaits hp ha hreq hh hok
    | finish => exact FinishState.Guarded.awaits hv hp hq ha hreq hh
    | recoverExpired =>
      exact RecoverState.Guarded.awaits hv hp hq ha hreq hh hok
  step := by
    rintro t locked p _ w hv ⟨hp, -⟩ - h
    exact ⟨hp.step hv h, by rintro r ⟨⟩⟩
  commit := by
    rintro t t' locked p w hv ⟨hp, -⟩ - h
    exact (keeps hv hp h).1
  others := by
    rintro t t' locked p q w w' hv ⟨hp, -⟩ ⟨hq, hw⟩ ha - h
    have hk := (keeps hv hp h).2
    exact ⟨hq.others hv hk ha, fun r hr => (hw r hr).others hv hk ha⟩

def QueueRow.rank : QueueRow → ℕ ×ₗ String ×ₗ ℕ
  | .run _ | .lease _ | .session _ => toLex (0, toLex ("", 0))
  | .worker w => toLex (1, toLex (w, 0))
  | .workspace _ => toLex (2, toLex ("", 0))
  | .quota τ => toLex (3, toLex ("", τ))
  | .admission => toLex (4, toLex ("", 0))

theorem QueueRow.rank_lt_quota {τ : Uuid}
    (h : (∃ w, r = .worker w) ∨ (∃ k, r = .run k) ∨ (∃ k, r = .session k) ∨
      (∃ k, r = .workspace k) ∨ ∃ τ', r = .quota τ' ∧ τ' < τ) :
    r.rank < (quota τ).rank := by
  rcases h with ⟨_, rfl⟩ | ⟨_, rfl⟩ | ⟨_, rfl⟩ | ⟨_, rfl⟩ | ⟨τ', rfl, hlt⟩
  all_goals simp [rank, Prod.Lex.toLex_lt_toLex]
  exact hlt

theorem QueueRow.rank_lt_worker {w : String}
    (h : (∃ k, r = .lease k) ∨ (∃ k, r = .run k) ∨ ∃ w', r = .worker w' ∧ w' < w) :
    r.rank < (QueueRow.worker w).rank := by
  rcases h with ⟨_, rfl⟩ | ⟨_, rfl⟩ | ⟨w', rfl, hlt⟩
  · simp [rank, Prod.Lex.toLex_lt_toLex]
  · simp [rank, Prod.Lex.toLex_lt_toLex]
  · exact Prod.Lex.toLex_lt_toLex.mpr (.inr ⟨rfl, Prod.Lex.toLex_lt_toLex.mpr (.inl hlt)⟩)

theorem QueueRow.rank_lt_workspace
    (h : (∃ k, r = .lease k) ∨ (∃ k, r = .run k) ∨ ∃ w, r = .worker w) :
    r.rank < (QueueRow.workspace k).rank := by
  rcases h with ⟨_, rfl⟩ | ⟨_, rfl⟩ | ⟨_, rfl⟩ <;>
    simp [rank, Prod.Lex.toLex_lt_toLex]

theorem QueueRow.rank_lt_admission (h : (∃ k, r = .session k) ∨ ∃ τ, r = .quota τ)
    : r.rank < QueueRow.admission.rank := by
  rcases h with ⟨_, rfl⟩ | ⟨_, rfl⟩ <;> simp [rank, Prod.Lex.toLex_lt_toLex]

theorem QueueTxn.Awaits.owns {p : QueueTxn} (h : p.Awaits t (.workspace k)) : t.Owns p.held k := by
  cases p with
  | claim => obtain ⟨⟨_, ⟨⟩⟩, -⟩ | ⟨_, ⟨⟩, -⟩ := h
  | create => obtain ⟨⟨_, ⟨⟩⟩ | ⟨⟨⟩⟩, -⟩ | ⟨⟨_, ⟨⟩⟩, -⟩ | ⟨⟨⟩, -⟩ := h
  | finish =>
    rcases h with ⟨⟨_, ⟨⟩⟩, -⟩ | ⟨k', ⟨⟩, hown⟩ | ⟨_, ⟨⟩⟩
    exact hown
  | recoverExpired =>
    rcases h with ⟨k', ⟨⟩, hown⟩ | ⟨_, ⟨⟩, -⟩
    exact hown

theorem QueueTables.Owns.exclusive {held held' : List QueueRow} (hv : t.Valid) (h : t.Owns held k)
    (h' : t.Owns held' k) (ha : ∀ r ∈ held, r ∉ held') : False := by
  obtain ⟨key, token, hh, hl, hw⟩ := h
  obtain ⟨key', token', hh', hl', hw'⟩ := h'
  have ht : token = token' := hv.workspaceToken_unique hw hw'
  subst ht
  have hkey : key = key' := hv.tokens key key' token hl hl'
  subst hkey
  exact ha _ hh hh'

theorem QueueTxn.Placed.rank_lt {p : QueueTxn} {r' : QueueRow} (hv : t.Valid)
    (hp : p.Placed t (some r)) (hq : q.Placed t (some r')) (ha : ∀ r ∈ p.held, r ∉ q.held)
    (hr : r ∈ q.held) : r.rank < r'.rank := by
  have hwa := hp.2 r rfl
  have hnot : ∀ k, r = .workspace k → ¬ t.Owns q.held k := by
    rintro k rfl hown
    exact (QueueTxn.Awaits.owns hwa).exclusive hv hown ha
  have he : q.held = [] → r.rank < r'.rank := by
    intro hnil
    rw [hnil] at hr
    cases hr
  obtain ⟨hgu, haw⟩ := hq
  cases q with
  | claim _ st =>
    have hg : st.Guarded t := hgu
    rcases haw r' rfl with ⟨-, hnil⟩ | ⟨τ, rfl, ho⟩
    · exact he hnil
    refine rank_lt_quota ?_
    rcases hg.kinds r hr with h₁ | ⟨k, rfl, -⟩ | ⟨τ', rfl⟩ | ⟨k, rfl, -⟩
    · exact .inl h₁
    · exact .inr (.inl ⟨k, rfl⟩)
    · exact .inr (.inr (.inr (.inr ⟨τ', rfl, ho τ' hr⟩)))
    · exact .inr (.inr (.inr (.inl ⟨k, rfl⟩)))
  | create =>
    rcases haw r' rfl with ⟨-, hnil⟩ | ⟨⟨τ, rfl⟩, hse⟩ | ⟨rfl, hk⟩
    · exact he hnil
    · exact rank_lt_quota (.inr (.inr (.inl ⟨_, hse r hr⟩)))
    · refine rank_lt_admission ?_
      rcases hk r hr with hs | hq
      · exact .inl ⟨_, hs⟩
      · exact .inr hq
  | finish call st =>
    have hg : st.Guarded t call := hgu
    have hk : (∃ k, r = .lease k) ∨ ∃ k, r = .run k := by
      rcases hg.kinds r hr with rfl | rfl | ⟨k, rfl, hw⟩
      · exact .inl ⟨_, rfl⟩
      · exact .inr ⟨_, rfl⟩
      · obtain ⟨hh, ht⟩ := hg.lease fun hst => by
          have hmem : QueueRow.workspace k ∈ st.held := hr
          rw [hg.start hst] at hmem
          cases hmem
        exact absurd ⟨_, _, hh, ht, hw⟩ (hnot k rfl)
    rcases haw r' rfl with ⟨-, hnil⟩ | ⟨k, rfl, -⟩ | ⟨w, rfl⟩
    · exact he hnil
    · exact rank_lt_workspace (hk.imp_right .inl)
    · exact rank_lt_worker (hk.imp_right .inl)
  | recoverExpired _ st =>
    have hg : st.Guarded t := hgu
    rcases haw r' rfl with ⟨k, rfl, -⟩ | ⟨w, rfl, ho⟩
    · refine rank_lt_workspace ?_
      rcases hg.kinds r hr with h₁ | h₂ | ⟨k, rfl, -⟩ | ⟨k, rfl, hown⟩
      · exact .inr (.inr h₁)
      · exact .inl h₂
      · exact .inr (.inl ⟨k, rfl⟩)
      · exact absurd hown (hnot k rfl)
    · refine rank_lt_worker ?_
      rcases hg.kinds r hr with ⟨w', rfl⟩ | h₂ | ⟨k, rfl, -⟩ | ⟨k, rfl, hown⟩
      · exact .inr (.inr ⟨w', rfl, ho w' hr⟩)
      · exact .inl h₂
      · exact .inr (.inl ⟨k, rfl⟩)
      · exact absurd hown (hnot k rfl)

/-- **Without unordered waits there is no deadlock.** -/
theorem ordered_waits_no_deadlock (t : QueueTables) (ht : t.Valid) (ops : List (Op QueueCall))
    (hops : History.Admissible QueueDatabase.apply
      (queueProtocol.WaitsOnly fun t p r => p.Ordered t r) { tables := t } ops) :
    ¬ (ops.foldl QueueDatabase.apply { tables := t }).Deadlocked queueProtocol := by
  have hsound := placed_nonInterfering.sound queueProtocol_lawful ht hops
  refine Database.not_deadlocked_of_rank QueueRow.rank ?_
  intro i j e e' r r' hne he he' hr hheld hr'
  have hp := hsound.locals i e he
  have hq := hsound.locals j e' he'
  rw [hr] at hp
  rw [hr'] at hq
  refine QueueTxn.Placed.rank_lt hsound.tables hp hq ?_ hheld
  intro x hx hx'
  exact hne (hsound.exclusive i j e e' x he he' hx hx')

def crossedRun (tenantId id workspaceId : Uuid) (createdAt : Timestamp)
    (lease : Option RunLeaseRecord) : FleetRun :=
  { store :=
      { run :=
          { tenantId := tenantId, id := id, sessionId := 5, workspaceId := workspaceId
            status := if lease.isSome then .running else .queued, createdAt := createdAt }
        routeName := "main", approvalMode := .autoApprove, lease := lease } }

def crossedTenants : QueueTables where
  fleet :=
    { runs :=
        [crossedRun 1 10 20 0 (some
          { tenantId := 1, runId := 10, workerId := "u", leaseToken := 40, generation := 1
            acquiredAt := 0, lastHeartbeatAt := 0, expiresAt := 900 }),
         crossedRun 2 11 21 0 (some
          { tenantId := 2, runId := 11, workerId := "u", leaseToken := 41, generation := 1
            acquiredAt := 0, lastHeartbeatAt := 0, expiresAt := 900 }),
         crossedRun 1 12 22 1 none, crossedRun 2 13 23 2 none,
         crossedRun 1 14 24 3 none, crossedRun 2 15 25 4 none]
      workers :=
        [{ workerId := "w", totalSlots := 2, availableSlots := 2, status := .active
           registeredAt := 0, lastHeartbeatAt := 0 },
         { workerId := "v", totalSlots := 2, availableSlots := 2, status := .active
           registeredAt := 0, lastHeartbeatAt := 0 }] }
  quotas :=
    [{ tenantId := 1, quota := { maxActiveRuns := 1 } },
     { tenantId := 2, quota := { maxActiveRuns := 1 } }]

def crossingClaims : List (Op QueueCall) :=
  [.begin (.claim { workerId := "w", token := 30, workspaceToken := 31, occurredAt := 9
                    expiresAt := 99 }),
   .begin (.claim { workerId := "v", token := 32, workspaceToken := 33, occurredAt := 9
                    expiresAt := 99 }),
   .advance 0, .advance 1, .advance 0, .advance 1, .advance 0, .advance 0, .advance 0,
   .advance 1, .advance 1, .advance 1, .advance 1, .advance 0, .advance 0, .advance 0, .advance 1]

theorem crossedTenants_valid : crossedTenants.Valid :=
  .of_rows (by decide) (by decide) (by decide) (by decide)

theorem ordered_waits_no_deadlock_crossing : crossedTenants.Valid ∧
      (crossingClaims.foldl QueueDatabase.apply { tables := crossedTenants }).WaitsFor
        queueProtocol 0 1 ∧ ¬ (crossingClaims.foldl QueueDatabase.apply
        { tables := crossedTenants }).Deadlocked queueProtocol :=
  ⟨crossedTenants_valid, by decide, ordered_waits_no_deadlock _ crossedTenants_valid _ (by decide)⟩

theorem claims_deadlock : crossedTenants.Valid ∧
      ((crossingClaims ++ [Op.advance 1]).foldl QueueDatabase.apply
        { tables := crossedTenants }).Deadlocked queueProtocol :=
  ⟨crossedTenants_valid, 0,
    Relation.TransGen.tail (Relation.TransGen.single (b := 1) (by decide)) (by decide)⟩

end AgentPlatform
