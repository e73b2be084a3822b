/-
**Conversations in which every announced call is answered, in order.**
-/

import Mathlib

namespace AnsweredCalls

open List Option

section Announced

variable {M K : Type} (announces : M → List K) (answers : M → Option K)

def announced (ms : List M) : List K := ms.flatMap announces

structure Answered (ms : List M) : Prop where
  direct : ∀ before m after, ms = before ++ m :: after →
    ∃ replies rest, after = replies ++ rest ∧ replies.map answers = (announces m).map some
  once : ms.filterMap answers = announced announces ms
  nodup : (announced announces ms).Nodup

variable {announces} {ms : List M} {m : M}

@[simp] theorem announced_concat :
    announced announces (ms ++ [m]) = announced announces ms ++ announces m := by
  simp [announced]

end Announced

variable {M K : Type} [DecidableEq K] (announces : M → List K) (answers : M → Option K)

/-- Read one message, given the calls that are due. -/
def read : Option (List K) → M → Option (List K)
  | none, _ => none
  | some [], m => if answers m = none then some (announces m) else none
  | some (k :: ks), m => if answers m = some k then some ks else none

def due (ms : List M) : Option (List K) := ms.foldl (read announces answers) (some [])

def WellAnswered (ms : List M) (ks : List K) : Prop :=
  due announces answers ms = some ks ∧ (announced announces ms).Nodup

instance (ms : List M) (ks : List K) : Decidable (WellAnswered announces answers ms ks) :=
  inferInstanceAs (Decidable (_ ∧ _))

def AnsweredIf (unique : Prop) (ms : List M) (ks : List K) : Prop :=
  due announces answers ms = some ks ∧ (unique → (announced announces ms).Nodup)

variable {announces answers} {ms : List M} {m : M} {k : K} {ks : List K} {unique : Prop}

theorem foldl_read_none : ms.foldl (read announces answers) none = none := by
  induction ms with
  | nil => rfl
  | cons _ _ ih => exact ih

theorem due_concat : due announces answers (ms ++ [m]) =
    read announces answers (due announces answers ms) m := by
  simp [due]

theorem due_concat_inv (h : due announces answers (ms ++ [m]) = some ks) :
    due announces answers ms = some [] ∧ answers m = none ∧ ks = announces m ∨
      ∃ k, due announces answers ms = some (k :: ks) ∧ answers m = some k := by
  rw [due_concat] at h
  cases hdue : due announces answers ms with
  | none => rw [hdue] at h; cases h
  | some due' =>
    rw [hdue] at h
    cases due' with
    | nil =>
      rw [read] at h
      split at h
      next hm => exact .inl ⟨rfl, hm, (some_inj.1 h).symm⟩
      · cases h
    | cons k =>
      rw [read] at h
      split at h
      next hm =>
        obtain rfl := some_inj.1 h
        exact .inr ⟨k, rfl, hm⟩
      · cases h

theorem AnsweredIf.announce (h : AnsweredIf announces answers unique ms []) (hm : answers m = none)
    (hnew : unique → (announces m).Nodup ∧ ∀ k ∈ announces m, k ∉ announced announces ms) :
    AnsweredIf announces answers unique (ms ++ [m]) (announces m) := by
  refine ⟨?_, fun hu => ?_⟩
  · rw [due_concat, h.1]
    simp [read, hm]
  · obtain ⟨hn, hnew⟩ := hnew hu
    rw [announced_concat]
    exact (h.2 hu).append hn fun k hold hk => hnew k hk hold

theorem AnsweredIf.answer (h : AnsweredIf announces answers unique ms (k :: ks))
    (hm : answers m = some k) (hn : announces m = []) :
    AnsweredIf announces answers unique (ms ++ [m]) ks := by
  refine ⟨?_, by simpa [hn] using h.2⟩
  rw [due_concat, h.1]
  simp [read, hm]

theorem AnsweredIf.answerAll {replies : List M} (h : AnsweredIf announces answers unique ms ks)
    (hr : replies.map answers = ks.map some) (hn : ∀ m ∈ replies, announces m = []) :
    AnsweredIf announces answers unique (ms ++ replies) [] := by
  induction replies generalizing ms ks with
  | nil =>
    obtain rfl : ks = [] := by simpa using hr.symm
    simpa using h
  | cons m _ ih =>
    cases ks with
    | nil => simp at hr
    | cons =>
      obtain ⟨hm, hre⟩ := List.cons.inj hr
      have hs := h.answer hm (hn m (mem_cons_self ..))
      simpa using ih hs hre fun m hm => hn m (mem_cons_of_mem _ hm)

theorem replies_of_read : ∀ {ks : List K} {ms : List M},
    ms.foldl (read announces answers) (some ks) = some [] →
    ∃ replies rest, ms = replies ++ rest ∧ replies.map answers = ks.map some
  | [], ms, _ => ⟨[], ms, rfl, rfl⟩
  | k :: ks, [], h => by simp at h
  | k :: ks, m :: ms, h => by
      rw [foldl_cons, read] at h
      split at h
      next hm =>
        obtain ⟨replies, rest, rfl, hr⟩ := replies_of_read h
        exact ⟨m :: replies, rest, rfl, by simp [hm, hr]⟩
      · exact absurd h (by rw [foldl_read_none]; simp)

theorem announced_eq (ha : ∀ m, answers m ≠ none → announces m = []) :
    ∀ {ms : List M} {ks : List K}, due announces answers ms = some ks →
      announced announces ms = ms.filterMap answers ++ ks := by
  intro ms
  induction ms using reverseRecOn with
  | nil =>
    intro ks h
    cases h
    rfl
  | append_singleton _ m ih =>
    intro ks h
    obtain ⟨hdue, hm, rfl⟩ | ⟨_, hdue, hm⟩ := due_concat_inv h
    · simp [ih hdue, filterMap_append, hm]
    · simp [ih hdue, filterMap_append, hm, ha m (by simp [hm])]

theorem WellAnswered.answered (ha : ∀ m, answers m ≠ none → announces m = [])
    (h : WellAnswered announces answers ms []) : Answered announces answers ms where
  direct := by
    rintro before m after rfl
    by_cases hm : answers m = none
    · have hdue := h.1
      rw [due, foldl_append, foldl_cons] at hdue
      cases hb : before.foldl (read announces answers) (some []) with
      | none => rw [hb, read, foldl_read_none] at hdue; cases hdue
      | some due' =>
        rw [hb] at hdue
        cases due' with
        | nil =>
          rw [read, if_pos hm] at hdue
          exact replies_of_read hdue
        | cons =>
          rw [read, if_neg (by simp [hm]), foldl_read_none] at hdue
          cases hdue
    · exact ⟨[], after, rfl, by simp [ha m hm]⟩
  once := by simpa using (announced_eq ha h.1).symm
  nodup := h.2

theorem due_append {ms ms' : List M} : due announces answers (ms ++ ms') =
    ms'.foldl (read announces answers) (due announces answers ms) := by
  simp [due]

theorem due_append_of_closed {ms ms' : List M} (h : due announces answers ms = some []) :
    due announces answers (ms ++ ms') = due announces answers ms' := by
  rw [due_append, h]
  rfl

theorem due_ne_none_left {ms ms' : List M} (h : due announces answers (ms ++ ms') ≠ none) :
    due announces answers ms ≠ none := by
  intro hn
  rw [due_append, hn, foldl_read_none] at h
  exact h rfl

theorem due_of_not_answer {ms ms' : List M} (h : due announces answers (ms ++ m :: ms') ≠ none)
    (hm : answers m = none) : due announces answers ms = some [] := by
  cases hdue : due announces answers ms with
  | none => exact absurd hdue (due_ne_none_left h)
  | some ks =>
    cases ks with
    | nil => rfl
    | cons =>
      rw [due_append, hdue, foldl_cons, read, if_neg (by simp [hm]), foldl_read_none] at h
      exact absurd rfl h

theorem due_filter {p : M → Bool} {q : K → Bool} (ha : ∀ m, ∀ k ∈ announces m, q k = p m)
    (han : ∀ m k, answers m = some k → q k = p m) {ms : List M} {ks : List K}
    (h : due announces answers ms = some ks) :
    due announces answers (ms.filter p) = some (ks.filter q) := by
  induction ms using reverseRecOn generalizing ks with
  | nil =>
    cases h
    rfl
  | append_singleton _ m ih =>
    rw [filter_append]
    obtain ⟨hdue, hm, rfl⟩ | ⟨k, hdue, hm⟩ := due_concat_inv h
    ·
      have hke := ih hdue
      cases hp : p m with
      | true =>
        have hall : (announces m).filter q = announces m :=
          filter_eq_self.2 fun k hk => (ha m k hk).trans hp
        rw [filter_cons_of_pos hp, filter_nil, due_concat, hke, hall]
        exact if_pos hm
      | false =>
        have hn : (announces m).filter q = [] :=
          filter_eq_nil_iff.2 fun k hk => by simp [ha m k hk, hp]
        rw [filter_cons_of_neg (by simp [hp]), filter_nil, append_nil, hke, hn]
        rfl
    · have hke := ih hdue
      have hq : q k = p m := han m k hm
      cases hp : p m with
      | true =>
        rw [filter_cons_of_pos (hq.trans hp)] at hke
        rw [filter_cons_of_pos hp, filter_nil, due_concat, hke]
        exact if_pos hm
      | false =>
        rw [filter_cons_of_neg (by simp [hq, hp])] at hke
        rw [filter_cons_of_neg (by simp [hp]), filter_nil, append_nil, hke]

theorem due_map {M' K' : Type} [DecidableEq K'] {announces' : M' → List K'}
    {answers' : M' → Option K'} {f : M → M'} {g : K → K'}
    (ha : ∀ m, announces' (f m) = (announces m).map g)
    (han : ∀ m, answers' (f m) = (answers m).map g) {ms : List M} {ks : List K}
    (h : due announces answers ms = some ks) :
    due announces' answers' (ms.map f) = some (ks.map g) := by
  induction ms using reverseRecOn generalizing ks with
  | nil =>
    cases h
    rfl
  | append_singleton _ _ ih =>
    rw [map_append, map_singleton, due_concat]
    obtain ⟨hdue, hm, rfl⟩ | ⟨_, hdue, hm⟩ := due_concat_inv h
    · rw [ih hdue, map_nil, read, if_pos (by rw [han, hm]; rfl), ha]
    · rw [ih hdue, map_cons, read, if_pos (by rw [han, hm]; rfl)]

theorem announced_of_due {ms : List M} {ks : List K} (h : due announces answers ms = some ks) :
    ∀ k ∈ ks, ∃ m ∈ ms, k ∈ announces m := by
  induction ms using reverseRecOn generalizing ks with
  | nil =>
    cases h
    exact fun k hk => absurd hk not_mem_nil
  | append_singleton _ m ih =>
    intro k hk
    obtain ⟨hdue, hm, rfl⟩ | ⟨_, hdue, hm⟩ := due_concat_inv h
    · exact ⟨m, by simp, hk⟩
    · obtain ⟨m', hm', ha⟩ := ih hdue k (mem_cons_of_mem _ hk)
      exact ⟨m', mem_append_left _ hm', ha⟩

theorem announced_before {before after : List M}
    (h : due announces answers (before ++ m :: after) ≠ none) (hm : answers m = some k) :
    ∃ m' ∈ before, k ∈ announces m' := by
  cases hdue : due announces answers before with
  | none => exact absurd hdue (due_ne_none_left h)
  | some ks =>
    rw [due_append, hdue, foldl_cons] at h
    cases ks with
    | nil =>
      rw [read, if_neg (by simp [hm]), foldl_read_none] at h
      exact absurd rfl h
    | cons k' =>
      rw [read] at h
      split at h
      next hm' =>
        obtain rfl : k = k' := some_inj.1 (hm.symm.trans hm')
        exact announced_of_due hdue k (mem_cons_self ..)
      · rw [foldl_read_none] at h
        exact absurd rfl h

theorem answered_or_end : ∀ {ks : List K} {ms : List M},
    ms.foldl (read announces answers) (some ks) ≠ none → ∀ k ∈ ks,
      ∃ replies rest, ms = replies ++ rest ∧ (∀ m ∈ replies, answers m ≠ none) ∧
        ((∃ m ∈ replies, answers m = some k) ∨ rest = [])
  | [], _, _ => fun k hk => absurd hk not_mem_nil
  | _ :: _, [], _ => fun k _ => ⟨[], [], rfl, fun m hm => absurd hm not_mem_nil, .inr rfl⟩
  | k' :: ks, m :: ms, h => by
      intro k hk
      rw [foldl_cons, read] at h
      split at h
      next hm =>
        rcases mem_cons.1 hk with rfl | hks
        · exact ⟨[m], ms, rfl, fun m' hm' => by simp [mem_singleton.1 hm', hm],
            .inl ⟨m, mem_singleton_self m, hm⟩⟩
        obtain ⟨replies, rest, rfl, hr, hend⟩ := answered_or_end h k hks
        refine ⟨m :: replies, rest, rfl, ?_, ?_⟩
        · intro m' hm'
          rcases mem_cons.1 hm' with rfl | hold
          · simp [hm]
          · exact hr m' hold
        · exact hend.imp_left fun ⟨m', hm', hk'⟩ => ⟨m', mem_cons_of_mem _ hm', hk'⟩
      · rw [foldl_read_none] at h
        exact absurd rfl h

theorem answered_after {before after : List M}
    (h : due announces answers (before ++ m :: after) ≠ none) (hm : answers m = none)
    (hk : k ∈ announces m) :
    ∃ replies rest, after = replies ++ rest ∧ (∀ m ∈ replies, answers m ≠ none) ∧
      ((∃ m ∈ replies, answers m = some k) ∨ rest = []) := by
  have hc := due_of_not_answer h hm
  rw [due_append, hc, foldl_cons, read, if_pos hm] at h
  exact answered_or_end h k hk

end AnsweredCalls
