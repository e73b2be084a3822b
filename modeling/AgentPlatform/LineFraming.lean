/-
**Lines: framing a list of words with terminators, and splitting the text again.**
-/

import Mathlib

namespace LineFraming

open List

variable {α : Type}

structure Boundaries (α : Type) where
  boundary : α → Bool
  joined : α → α → Bool
  joined_boundary : ∀ b c, joined b c = true → boundary c = true

/-- Split the rest of a text. -/
def splitFrom (B : Boundaries α) : Option α → List α → List α → List (List α)
  | _, [], [] => []
  | _, c :: cur, [] => [c :: cur]
  | prev, cur, c :: rest =>
    if prev.any (B.joined · c) then splitFrom B none cur rest
    else if B.boundary c then cur :: splitFrom B (some c) [] rest
    else splitFrom B none (cur ++ [c]) rest

def splitLines (B : Boundaries α) (text : List α) : List (List α) := splitFrom B none [] text

def frame (terminator : α) (words : List (List α)) : List α :=
  words.flatMap (· ++ [terminator])

def Clean (B : Boundaries α) (word : List α) : Prop := ∀ c ∈ word, B.boundary c = false

theorem exists_first {p : α → Prop} {l : List α} (h : ∃ x ∈ l, ¬ p x) :
    ∃ before x rest, l = before ++ x :: rest ∧ (∀ y ∈ before, p y) ∧ ¬ p x := by
  induction l with
  | nil =>
    obtain ⟨x, hx, -⟩ := h
    cases hx
  | cons y l ih =>
    by_cases hy : p y
    · have ht : ∃ x ∈ l, ¬ p x := by
        obtain ⟨x, hx, hpx⟩ := h
        rcases mem_cons.1 hx with rfl | hx
        · exact absurd hy hpx
        · exact ⟨x, hx, hpx⟩
      obtain ⟨before, x, rest, rfl, hb, hpx⟩ := ih ht
      refine ⟨y :: before, x, rest, rfl, ?_, hpx⟩
      intro z hz
      rcases mem_cons.1 hz with rfl | hz
      · exact hy
      · exact hb z hz
    · exact ⟨[], y, l, rfl, by simp, hy⟩

variable {B : Boundaries α}

theorem not_joined {prev : Option α} {c : α} (hc : B.boundary c = false) :
    prev.any (B.joined · c) = false := by
  cases prev with
  | none => rfl
  | some b =>
    rw [Option.any_some, Bool.eq_false_iff]
    intro hj
    rw [B.joined_boundary b c hj] at hc
    cases hc

theorem splitFrom_symbol {prev : Option α} {cur rest : List α} {c : α} (hc : B.boundary c = false) :
    splitFrom B prev cur (c :: rest) = splitFrom B none (cur ++ [c]) rest := by
  cases cur <;> simp [splitFrom, not_joined hc, hc]

theorem splitFrom_word {word : List α} (hw : Clean B word) : ∀ {cur rest : List α},
      splitFrom B none cur (word ++ rest) = splitFrom B none (cur ++ word) rest := by
  induction word with
  | nil =>
    intro cur rest
    rw [nil_append, append_nil]
  | cons c word ih =>
    intro cur rest
    have hc : B.boundary c = false := hw c (mem_cons_self ..)
    have hr : Clean B word := fun d hd => hw d (mem_cons_of_mem _ hd)
    rw [cons_append, splitFrom_symbol hc, ih hr, List.append_assoc]
    rfl

theorem splitFrom_line {prev : Option α} {word rest : List α} {b : α} (hne : word ≠ [])
    (hw : Clean B word) (hb : B.boundary b) :
    splitFrom B prev [] (word ++ b :: rest) = word :: splitFrom B (some b) [] rest := by
  cases word with
  | nil => exact absurd rfl hne
  | cons c word =>
    have hc : B.boundary c = false := hw c (mem_cons_self ..)
    have hr : Clean B word := fun d hd => hw d (mem_cons_of_mem _ hd)
    rw [cons_append, splitFrom_symbol hc, splitFrom_word hr]
    simp [splitFrom, hb]

theorem splitFrom_frame {terminator : α} (ht : B.boundary terminator)
    {words : List (List α)} (hw : ∀ w ∈ words, w ≠ [] ∧ Clean B w) (rest : List α) :
    ∀ prev : Option α, ∃ prev', splitFrom B prev [] (frame terminator words ++ rest) =
        words ++ splitFrom B prev' [] rest := by
  induction words with
  | nil =>
    intro prev
    exact ⟨prev, rfl⟩
  | cons w words ih =>
    intro prev
    obtain ⟨hne, hc⟩ := hw w (mem_cons_self ..)
    obtain ⟨prev', hta⟩ :=
      ih (fun v hv => hw v (mem_cons_of_mem _ hv)) (some terminator)
    refine ⟨prev', ?_⟩
    have hs : frame terminator (w :: words) ++ rest =
        w ++ terminator :: (frame terminator words ++ rest) := by
      simp [frame]
    rw [hs, splitFrom_line hne hc ht, hta, cons_append]

theorem splitLines_frame {terminator : α} (ht : B.boundary terminator)
    {words : List (List α)} (hw : ∀ w ∈ words, w ≠ [] ∧ Clean B w) :
    splitLines B (frame terminator words) = words := by
  obtain ⟨prev', h⟩ := splitFrom_frame ht hw [] none
  rw [append_nil] at h
  rw [splitLines, h]
  cases prev' <;> simp [splitFrom]

theorem splitLines_cut {terminator b : α} (ht : B.boundary terminator)
    (hb : B.boundary b) {words : List (List α)} {word : List α}
    (hw : ∀ w ∈ words, w ≠ [] ∧ Clean B w) (hne : word ≠ []) (hwr : Clean B word)
    (rest : List α) : ∃ lines,
      splitLines B (frame terminator words ++ (word ++ b :: rest)) = words ++ word :: lines := by
  obtain ⟨_, h⟩ := splitFrom_frame ht hw (word ++ b :: rest) none
  exact ⟨splitFrom B (some b) [] rest, by rw [splitLines, h, splitFrom_line hne hwr hb]⟩

end LineFraming
