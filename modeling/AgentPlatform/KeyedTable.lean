/-
**Tables with a unique key.**
-/

import Mathlib

namespace KeyedTable

open List

variable {α κ : Type} [DecidableEq κ] (key : α → κ)

def lookup (k : κ) : List α → Option α
  | [] => none
  | x :: t => if key x = k then some x else lookup k t

/-- Replace the row with the key of `x`, or append `x`. -/
def upsert (x : α) : List α → List α
  | [] => [x]
  | y :: t => if key y = key x then x :: t else y :: upsert x t

def Unique (t : List α) : Prop := (t.map key).Nodup

variable {key}

@[simp] theorem lookup_nil (k : κ) : lookup key k [] = none := rfl

omit [DecidableEq κ] in
@[simp] theorem unique_nil : Unique key [] := nodup_nil

theorem lookup_some {k : κ} {x : α} : ∀ {t : List α}, lookup key k t = some x → x ∈ t ∧ key x = k
  | [], h => by simp at h
  | y :: t, h => by
      simp only [lookup] at h
      split at h
      next hy =>
        cases h
        exact ⟨mem_cons_self .., hy⟩
      · obtain ⟨hx, hk⟩ := lookup_some h
        exact ⟨mem_cons_of_mem _ hx, hk⟩

theorem lookup_eq_none {k : κ} : ∀ {t : List α}, lookup key k t = none ↔ ∀ x ∈ t, key x ≠ k
  | [] => by simp
  | y :: t => by
      simp only [lookup, mem_cons, forall_eq_or_imp]
      split
      · rename_i hy; simp [hy]
      · rename_i hy; simp [hy, lookup_eq_none]

theorem Unique.lookup_eq_some_iff {k : κ} {x : α} {t : List α} (h : Unique key t) :
    lookup key k t = some x ↔ x ∈ t ∧ key x = k := by
  refine ⟨lookup_some, ?_⟩
  rintro ⟨hx, hk⟩
  cases hl : lookup key k t with
  | none => exact absurd hk (lookup_eq_none.1 hl x hx)
  | some =>
    obtain ⟨hy, hky⟩ := lookup_some hl
    rw [inj_on_of_nodup_map h hy hx (hky.trans hk.symm)]

/-- A key that the table lacks leaves room among the keys it may use. -/
theorem Unique.length_lt {names : Finset κ} {k : κ} {t : List α} (h : Unique key t)
    (hsub : ∀ x ∈ t, key x ∈ names) (hk : k ∈ names) (hnone : lookup key k t = none) :
    t.length < names.card := by
  have hnodup : (k :: t.map key).Nodup := by
    refine nodup_cons.2 ⟨fun hmem => ?_, h⟩
    obtain ⟨x, hx, hxk⟩ := mem_map.1 hmem
    exact lookup_eq_none.1 hnone x hx hxk
  have hle : (k :: t.map key).toFinset.card ≤ names.card := by
    refine Finset.card_le_card fun n hn => ?_
    rcases mem_cons.1 (mem_toFinset.1 hn) with rfl | hn
    · exact hk
    · obtain ⟨x, hx, rfl⟩ := mem_map.1 hn
      exact hsub x hx
  rw [toFinset_card_of_nodup hnodup, length_cons, length_map] at hle
  exact hle

@[simp] theorem lookup_upsert_self (x : α) (t : List α) :
    lookup key (key x) (upsert key x t) = some x := by
  induction t with
  | nil => simp [upsert, lookup]
  | cons y t ih =>
    by_cases hy : key y = key x
    · simp [upsert, lookup, hy]
    · simp [upsert, lookup, hy, ih]

theorem lookup_upsert_of_ne {k : κ} {x : α} (hk : key x ≠ k) (t : List α) :
    lookup key k (upsert key x t) = lookup key k t := by
  induction t with
  | nil => simp [upsert, lookup, hk]
  | cons y t ih =>
    by_cases hy : key y = key x
    · have hyk : key y ≠ k := fun h => hk (hy ▸ h)
      simp [upsert, lookup, hy, hk]
    · simp [upsert, lookup, hy, ih]

theorem lookup_upsert (k : κ) (x : α) (t : List α) :
    lookup key k (upsert key x t) = if key x = k then some x else lookup key k t := by
  split
  next hk => rw [← hk, lookup_upsert_self]
  next hk => exact lookup_upsert_of_ne hk t

theorem isSome_lookup_upsert {k : κ} {x : α} {t : List α} :
    (lookup key k (upsert key x t)).isSome = true ↔ (lookup key k t).isSome = true ∨ key x = k := by
  by_cases hk : key x = k
  · subst hk
    simp
  · rw [lookup_upsert_of_ne hk]
    simp [hk]

theorem mem_upsert_self (x : α) (t : List α) : x ∈ upsert key x t :=
  (lookup_some (k := key x) (lookup_upsert_self x t)).1

theorem mem_of_mem_upsert {x y : α} {t : List α} (h : y ∈ upsert key x t) : y = x ∨ y ∈ t := by
  induction t with
  | nil => simpa [upsert] using h
  | cons z t ih =>
    simp only [upsert] at h
    split at h
    · rcases mem_cons.1 h with rfl | h
      · exact .inl rfl
      · exact .inr (mem_cons_of_mem _ h)
    · rcases mem_cons.1 h with rfl | h
      · exact .inr (mem_cons_self ..)
      · rcases ih h with h | h
        · exact .inl h
        · exact .inr (mem_cons_of_mem _ h)

theorem mem_upsert_of_ne {x y : α} {t : List α} (h : y ∈ t) (hk : key y ≠ key x) :
    y ∈ upsert key x t := by
  induction t with
  | nil => simp at h
  | cons z t ih =>
    simp only [upsert]
    rcases mem_cons.1 h with rfl | h
    · rw [if_neg hk]; exact mem_cons_self ..
    · split
      · exact mem_cons_of_mem _ h
      · exact mem_cons_of_mem _ (ih h)

theorem lookup_append (k : κ) (t t' : List α) :
    lookup key k (t ++ t') = (lookup key k t).or (lookup key k t') := by
  induction t with
  | nil => simp
  | cons y t ih =>
    simp only [cons_append, lookup]
    split
    · simp
    · exact ih

theorem lookup_append_of_some {k : κ} {x : α} {t t' : List α} (h : lookup key k t = some x) :
    lookup key k (t ++ t') = some x := by
  rw [lookup_append, h, Option.some_or]

theorem lookup_map {g : α → α} (hg : ∀ x, key (g x) = key x) (k : κ) (t : List α) :
    lookup key k (t.map g) = (lookup key k t).map g := by
  induction t with
  | nil => rfl
  | cons y t ih =>
    by_cases hy : key y = k
    · simp [lookup, hg, hy]
    · simp [lookup, hg, hy, ih]

omit [DecidableEq κ] in
theorem Unique.map {g : α → α} (hg : ∀ x, key (g x) = key x) {t : List α} (h : Unique key t) :
    Unique key (t.map g) := by
  unfold Unique at h ⊢
  rw [List.map_map, show key ∘ g = key from funext hg]
  exact h

theorem map_key_upsert (x : α) (t : List α) :
    (upsert key x t).map key = if key x ∈ t.map key then t.map key else t.map key ++ [key x] := by
  induction t with
  | nil => simp [upsert]
  | cons y t ih =>
    by_cases hy : key y = key x
    · simp [upsert, hy]
    · have hy' : key x ≠ key y := fun h => hy h.symm
      by_cases hx : key x ∈ t.map key
      · simp only [upsert, hy, if_false, map_cons, ih, hx, if_true, mem_cons, or_true]
      · simp only [upsert, hy, if_false, map_cons, ih, hx, mem_cons, hy', or_self,
          cons_append]

theorem Unique.upsert {t : List α} (h : Unique key t) (x : α) : Unique key (upsert key x t) := by
  unfold Unique at h ⊢
  rw [map_key_upsert]
  split
  · exact h
  rename_i hx
  refine nodup_append.2 ⟨h, nodup_singleton _, ?_⟩
  intro a ha b hb
  rw [mem_singleton.1 hb]
  rintro rfl
  exact hx ha

omit [DecidableEq κ] in
theorem Unique.append {t t' : List α} (h : Unique key t) (h' : Unique key t')
    (hne : ∀ x ∈ t, ∀ y ∈ t', key x ≠ key y) : Unique key (t ++ t') := by
  rw [Unique, map_append]
  refine List.Nodup.append h h' ?_
  intro k hk hk'
  obtain ⟨x, hx, rfl⟩ := mem_map.mp hk
  obtain ⟨y, hy, hs⟩ := mem_map.mp hk'
  exact hne x hx y hy hs.symm

omit [DecidableEq κ] in
theorem Unique.append_single {t : List α} (h : Unique key t) {x : α} (hx : ∀ y ∈ t, key y ≠ key x) :
    Unique key (t ++ [x]) := by
  refine h.append (nodup_singleton _) ?_
  intro y hy z hz
  rw [mem_singleton.mp hz]
  exact hx y hy

theorem countP_upsert_le (p : α → Bool) (x : α) (t : List α) :
    (upsert key x t).countP p ≤ t.countP p + if p x then 1 else 0 := by
  induction t with
  | nil => simp [upsert, countP_cons]
  | cons =>
    simp only [upsert]
    split
    · simp only [countP_cons]
      omega
    · simp only [countP_cons]
      omega

theorem countP_upsert_of_lookup {p : α → Bool} {x y : α} :
    ∀ {t : List α}, lookup key (key x) t = some y →
      (upsert key x t).countP p + (if p y then 1 else 0) = t.countP p + if p x then 1 else 0
  | [], h => by simp at h
  | z :: t, h => by
      simp only [lookup] at h
      simp only [upsert]
      split at h
      next hz =>
        cases h
        rw [if_pos hz]
        simp only [countP_cons]
        omega
      next hz =>
        have ih := countP_upsert_of_lookup (p := p) h
        rw [if_neg hz]
        simp only [countP_cons]
        omega

end KeyedTable
