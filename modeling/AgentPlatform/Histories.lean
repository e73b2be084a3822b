/-
**Histories: lists of operations on a state, and the induction over them.**
-/

import Mathlib

namespace History

open List

variable {S O : Type} {step : S → O → S} {ok : S → O → Prop} {Inv : S → Prop}

def Admissible (step : S → O → S) (ok : S → O → Prop) : S → List O → Prop
  | _, [] => True
  | s, o :: os => ok s o ∧ Admissible step ok (step s o) os

instance [∀ s o, Decidable (ok s o)] : ∀ (s : S) (os : List O), Decidable (Admissible step ok s os)
  | _, [] => isTrue trivial
  | s, o :: os =>
    have := instDecidableAdmissible (step s o) os
    inferInstanceAs (Decidable (ok s o ∧ Admissible step ok (step s o) os))

@[simp] theorem admissible_nil (s : S) : Admissible step ok s [] := trivial

@[simp] theorem admissible_cons (s : S) (o : O) (os : List O) :
    Admissible step ok s (o :: os) ↔ ok s o ∧ Admissible step ok (step s o) os := Iff.rfl

variable {s : S} {os : List O}

theorem admissible_append {os' : List O} : Admissible step ok s (os ++ os') ↔
      Admissible step ok s os ∧ Admissible step ok (os.foldl step s) os' := by
  induction os generalizing s with
  | nil => simp
  | cons _ _ ih => simp [ih, and_assoc]

theorem admissible_const {p : O → Prop} :
    Admissible step (fun _ o => p o) s os ↔ ∀ o ∈ os, p o := by
  induction os generalizing s with
  | nil => simp
  | cons _ _ ih => simp [ih]

theorem Admissible.mono {ok' : S → O → Prop} (h : ∀ s o, ok s o → ok' s o)
    (hos : Admissible step ok s os) : Admissible step ok' s os := by
  induction os generalizing s with
  | nil => trivial
  | cons o _ ih => exact ⟨h s o hos.1, ih hos.2⟩

/-- **The induction over histories**: what every operation that meets the condition preserves holds
after every admissible history. -/
theorem Admissible.invariant (Inv : S → Prop) (hs : ∀ s o, Inv s → ok s o → Inv (step s o))
    (h0 : Inv s) (hos : Admissible step ok s os) : Inv (os.foldl step s) := by
  induction os generalizing s with
  | nil => exact h0
  | cons o _ ih => exact ih (hs s o h0 hos.1) hos.2

theorem Admissible.iff_along (hs : ∀ s o, Inv s → (ok s o ↔ Inv (step s o))) (h0 : Inv s) :
    Admissible step ok s os ↔ ∀ past, past <+: os → Inv (past.foldl step s) := by
  induction os generalizing s with
  | nil => simp [h0]
  | cons o _ ih =>
    constructor
    · rintro ⟨ho, hos⟩ past hp
      cases past with
      | nil => exact h0
      | cons o' past =>
        obtain ⟨rfl, hr⟩ := cons_prefix_cons.1 hp
        exact (ih ((hs s o' h0).1 ho)).1 hos past hr
    · intro h
      have h1 : Inv (step s o) := h [o] (cons_prefix_cons.2 ⟨rfl, List.nil_prefix⟩)
      refine ⟨(hs s o h0).2 h1, (ih h1).2 fun past hp => ?_⟩
      exact h (o :: past) (cons_prefix_cons.2 ⟨rfl, hp⟩)

theorem occurs_append {E : Type} {log entries past rest : List E} {e : E}
    (h : log ++ entries = past ++ e :: rest) : (∃ rest', log = past ++ e :: rest') ∨
      ∃ past', past = log ++ past' ∧ entries = past' ++ e :: rest := by
  obtain ⟨past', hp, he⟩ | ⟨l, hlog, hr⟩ := append_eq_append_iff.1 h
  · exact .inr ⟨past', hp, he⟩
  · cases l with
    | nil => exact .inr ⟨[], by simpa using hlog.symm, by simpa using hr.symm⟩
    | cons _ l =>
      obtain ⟨rfl, -⟩ := List.cons.inj hr
      exact .inl ⟨l, hlog⟩

theorem occurs_concat {E : Type} {log past rest : List E} {e e' : E}
    (h : log ++ [e'] = past ++ e :: rest) :
    (∃ rest', log = past ++ e :: rest') ∨ past = log ∧ e = e' := by
  obtain hold | ⟨past', hp, hnew⟩ := occurs_append h
  · exact .inl hold
  · cases past' with
    | nil =>
      obtain ⟨rfl, -⟩ := List.cons.inj hnew
      exact .inr ⟨by simpa using hp, rfl⟩
    | cons => simp at hnew

inductive Path {C : Type} (move : C → List O → C → Prop) : C → List O → C → Prop
  | nil (c : C) : Path move c [] c
  | cons {c c' c'' : C} {os os' : List O} (first : move c os c') (rest : Path move c' os' c'') :
      Path move c (os ++ os') c''

variable {C : Type} {move : C → List O → C → Prop}

theorem Path.single {c c' : C} (h : move c os c') : Path move c os c' := by
  simpa using Path.cons h (.nil c')

theorem Path.append {c c' c'' : C} {os' : List O} (h : Path move c os c')
    (h' : Path move c' os' c'') : Path move c (os ++ os') c'' := by
  induction h with
  | nil => exact h'
  | cons first _ ih =>
    rw [List.append_assoc]
    exact .cons first (ih h')

/-- **Simulation by a monitor**: if a relation between configurations and monitor states is kept by
every move, and the monitor accepts what the move performs, then it accepts every path. -/
theorem Path.admissible {R : C → S → Prop} (hm : ∀ c os c' s, move c os c' → R c s →
      Admissible step ok s os ∧ R c' (os.foldl step s)) {c c' : C} (h : Path move c os c')
    (hs : R c s) : Admissible step ok s os ∧ R c' (os.foldl step s) := by
  induction h generalizing s with
  | nil => exact ⟨trivial, hs⟩
  | cons first _ ih =>
    obtain ⟨hos, hs'⟩ := hm _ _ _ s first hs
    obtain ⟨hos', hs''⟩ := ih hs'
    exact ⟨admissible_append.2 ⟨hos, hos'⟩, by rw [foldl_append]; exact hs''⟩

end History
