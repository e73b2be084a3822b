/-
**Depth-first search for a cycle.**
-/

import Mathlib

namespace DepthFirst

open Relation List

inductive Stop where
  | cycle | depth

variable {α : Type} [DecidableEq α] (next : α → List α)

def visit : ℕ → List α → List α → α → Except Stop (List α)
  | 0, _, _, _ => .error .depth
  | fuel + 1, visiting, visited, x =>
    if x ∈ visiting then .error .cycle
    else if x ∈ visited then .ok visited
    else do
      let visited ← (next x).foldlM (visit fuel (x :: visiting)) visited
      return x :: visited

def search (nodes : List α) : Except Stop (List α) :=
  nodes.foldlM (visit next (nodes.length + 1) []) []

def Edge (x y : α) : Prop := y ∈ next x

def Settled (visited : List α) : Prop :=
  ∀ x ∈ visited, (∀ y ∈ next x, y ∈ visited) ∧ ¬ TransGen (Edge next) x x

/-- What a search from `xs` ends with. -/
def Ends (nodes visited xs : List α) : Except Stop (List α) → Prop
  | .ok visited' => Settled next visited' ∧ visited ⊆ visited' ∧ xs ⊆ visited'
  | .error .cycle => ∃ x ∈ nodes, TransGen (Edge next) x x
  | .error .depth => False

variable {next} {nodes visited visiting : List α} {x : α}

omit [DecidableEq α] in
theorem Settled.reaches (h : Settled next visited) {y : α} (hx : x ∈ visited)
    (hxy : TransGen (Edge next) x y) : y ∈ visited := by
  induction hxy with
  | single hedge => exact (h x hx).1 _ hedge
  | tail _ hedge ih => exact (h _ ih).1 _ hedge

omit [DecidableEq α] in
theorem Settled.cons (h : Settled next visited) (hnext : next x ⊆ visited) :
    Settled next (x :: visited) := by
  -- a cycle through `x` leads through what is settled
  have hback : TransGen (Edge next) x x → x ∈ visited := fun hxx => by
    obtain ⟨y, hedge, hyx⟩ := TransGen.head'_iff.1 hxx
    rcases ReflTransGen.cases_head_iff.1 hyx with rfl | ⟨z, hyz, hzx⟩
    · exact hnext hedge
    · exact h.reaches (hnext hedge) (TransGen.head' hyz hzx)
  intro z hz
  rcases mem_cons.1 hz with rfl | hz
  · exact ⟨fun y hy => mem_cons_of_mem _ (hnext hy), fun hzz => (h z (hback hzz)).2 hzz⟩
  · exact ⟨fun y hy => mem_cons_of_mem _ ((h z hz).1 y hy), (h z hz).2⟩

omit [DecidableEq α] in
theorem ends_foldlM {f : List α → α → Except Stop (List α)} :
    ∀ {xs visited : List α}, (∀ x ∈ xs, ∀ visited, Settled next visited →
      Ends next nodes visited [x] (f visited x)) → Settled next visited →
      Ends next nodes visited xs (xs.foldlM f visited)
  | [], visited, _, hv => ⟨hv, List.Subset.refl _, nil_subset _⟩
  | x :: xs, visited, hf, hv => by
      have hx := hf x (mem_cons_self ..) visited hv
      rw [foldlM_cons]
      cases hfx : f visited x with
      | error stop =>
        rw [hfx] at hx
        cases stop <;> exact hx
      | ok visited₁ =>
        rw [hfx] at hx
        obtain ⟨hv₁, hsub, hmem⟩ := hx
        have hxs := ends_foldlM (fun x hx => hf x (mem_cons_of_mem _ hx)) hv₁
        change Ends next nodes visited (x :: xs) (xs.foldlM f visited₁)
        cases hfold : xs.foldlM f visited₁ with
        | error stop =>
          rw [hfold] at hxs
          cases stop <;> exact hxs
        | ok visited₂ =>
          rw [hfold] at hxs
          obtain ⟨hv₂, hsub₂, hmem₂⟩ := hxs
          exact ⟨hv₂, List.Subset.trans hsub hsub₂,
            cons_subset.2 ⟨hsub₂ (hmem (mem_singleton_self x)), hmem₂⟩⟩

theorem ends_visit (hc : ∀ x ∈ nodes, next x ⊆ nodes) {fuel : ℕ} (hx : x ∈ nodes)
    (hnodup : visiting.Nodup) (hsub : visiting ⊆ nodes) (hfuel : nodes.length < fuel + visiting.length)
    (hpath : ∀ y ∈ visiting, TransGen (Edge next) y x) (hv : Settled next visited) :
    Ends next nodes visited [x] (visit next fuel visiting visited x) := by
  induction fuel generalizing visiting visited x with
  | zero =>
    have hle := (hnodup.subperm hsub).length_le
    omega
  | succ fuel ih =>
    rw [visit]
    split
    next hmem => exact ⟨x, hx, hpath x hmem⟩
    split
    next hmem => exact ⟨hv, List.Subset.refl _, by simpa using hmem⟩
    rename_i hnew _
    have hfold : Ends next nodes visited (next x)
        ((next x).foldlM (visit next fuel (x :: visiting)) visited) := by
      refine ends_foldlM (fun y hy visited hv => ih (hc x hx hy)
        (nodup_cons.2 ⟨hnew, hnodup⟩) (cons_subset.2 ⟨hx, hsub⟩) ?_ ?_ hv) hv
      · rw [length_cons]
        omega
      · intro z hz
        rcases mem_cons.1 hz with rfl | hz
        · exact .single hy
        · exact (hpath z hz).tail hy
    cases hr : (next x).foldlM (visit next fuel (x :: visiting)) visited with
    | error stop =>
      rw [hr] at hfold
      cases stop <;> exact hfold
    | ok visited' =>
      rw [hr] at hfold
      obtain ⟨hv', hsub', hnext⟩ := hfold
      exact ⟨hv'.cons hnext, subset_cons_of_subset _ hsub', by simp⟩

/-- **The search finds a cycle exactly if there is one.** -/
theorem search_ok_iff (hc : ∀ x ∈ nodes, next x ⊆ nodes) :
    (search next nodes).isOk = true ↔ ∀ x ∈ nodes, ¬ TransGen (Edge next) x x := by
  have hends : Ends next nodes [] nodes (search next nodes) :=
    ends_foldlM (fun x hx visited hv => ends_visit hc hx nodup_nil (nil_subset _)
      (by simp) (by simp) hv) (by simp [Settled])
  cases hr : search next nodes with
  | ok visited =>
    rw [hr] at hends
    exact iff_of_true rfl fun x hx => (hends.1 x (hends.2.2 hx)).2
  | error stop =>
    rw [hr] at hends
    cases stop with
    | cycle =>
      obtain ⟨x, hx, hcycle⟩ := hends
      exact iff_of_false (by simp [Except.isOk, Except.toBool]) fun h => h x hx hcycle
    | depth => exact hends.elim

end DepthFirst
