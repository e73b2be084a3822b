/-
**Transactions that lock rows.**
-/

import AgentPlatform.Histories

namespace RowLocking

open List

variable {C R S P : Type}

inductive Outcome (S P : Type) where
  | running (p : P)
  | committed (s : S)
  | rolledBack

def Outcome.map {S P Q : Type} (g : P → Q) : Outcome S P → Outcome S Q
  | .running p => .running (g p)
  | .committed s => .committed s
  | .rolledBack => .rolledBack

/-- The transactions of a program: `start` begins one, `held` are its locked rows, `request` is the
row its next statement waits for, and `execute` runs it. -/
structure Protocol (C R S P : Type) where
  start : C → P
  held : P → List R
  request : S → P → Option R
  execute : S → (R → Bool) → P → Outcome S P

structure Entry (R P : Type) where
  txn : P
  waiting : Option R := none

structure Database (R S P : Type) where
  tables : S
  active : List (Option (Entry R P)) := []

open Database

inductive Op (C : Type) where
  | begin (call : C)
  | advance (i : ℕ)
  | rollBack (i : ℕ)

namespace Database

variable (M : Protocol C R S P) (d : Database R S P)

def entryAt (i : ℕ) : Option (Entry R P) := d.active[i]?.join

def put (i : ℕ) (e : Option (Entry R P)) : Database R S P := { d with active := d.active.set i e }

/-- Whether a transaction other than the `i`-th holds the row. -/
def lockedByOthers [DecidableEq R] (i : ℕ) (r : R) : Bool :=
  (List.range d.active.length).any fun j =>
    j ≠ i && (d.entryAt j).any fun e => decide (r ∈ M.held e.txn)

/-- The end of a statement of the `i`-th transaction. -/
def settle (i : ℕ) : Outcome S P → Database R S P
  | .running p => d.put i (some { txn := p })
  | .committed s => { d.put i none with tables := s }
  | .rolledBack => d.put i none

def apply [DecidableEq R] (M : Protocol C R S P) (d : Database R S P) :
    Op C → Database R S P
  | .begin call => { d with active := d.active ++ [some { txn := M.start call }] }
  | .rollBack i => d.put i none
  | .advance i =>
    match d.entryAt i with
    | none => d
    | some e =>
      match M.request d.tables e.txn with
      | none => d.settle i (M.execute d.tables (d.lockedByOthers M i) e.txn)
      | some r =>
        if d.lockedByOthers M i r then d.put i (some { e with waiting := some r })
        else d.settle i (M.execute d.tables (d.lockedByOthers M i) e.txn)

def Exclusive : Prop :=
  ∀ i j e e' r, d.entryAt i = some e → d.entryAt j = some e' → r ∈ M.held e.txn →
    r ∈ M.held e'.txn → i = j

/-- The `i`-th transaction waits for a row the `j`-th one holds. -/
def WaitsFor (i j : ℕ) : Prop :=
  i ≠ j ∧ ∃ e e' r, d.entryAt i = some e ∧ d.entryAt j = some e' ∧ e.waiting = some r ∧
    r ∈ M.held e'.txn

def Deadlocked : Prop := ∃ i, Relation.TransGen (d.WaitsFor M) i i

variable {M d}

theorem entryAt_put_self {i : ℕ} {e e' : Entry R P} (h : d.entryAt i = some e) :
    (d.put i (some e')).entryAt i = some e' := by
  have hlt : i < d.active.length := by
    by_contra hge
    simp [entryAt, getElem?_eq_none (Nat.le_of_not_lt hge)] at h
  simp [entryAt, put, getElem?_set_self hlt]

theorem entryAt_put_none (i : ℕ) : (d.put i none).entryAt i = none := by
  simp only [entryAt, put, getElem?_set]
  split
  · split <;> simp
  · simp_all

theorem entryAt_put_of_ne {i j : ℕ} (h : i ≠ j) (e : Option (Entry R P)) :
    (d.put i e).entryAt j = d.entryAt j := by
  simp [entryAt, put, getElem?_set_ne h]

theorem entryAt_begin {j : ℕ} {e e' : Entry R P}
    (h : ({ d with active := d.active ++ [some e] } : Database R S P).entryAt j = some e') :
    d.entryAt j = some e' ∨ e' = e := by
  simp only [entryAt, getElem?_append] at h
  split at h
  · exact .inl h
  · cases hk : j - d.active.length with
    | zero =>
      simp only [hk, getElem?_cons_zero, Option.join_some, Option.some.injEq] at h
      exact .inr h.symm
    | succ => simp [hk] at h

theorem lockedByOthers_iff [DecidableEq R] {i : ℕ} {r : R} : d.lockedByOthers M i r = true ↔
      ∃ j e, j ≠ i ∧ d.entryAt j = some e ∧ r ∈ M.held e.txn := by
  simp only [lockedByOthers, List.any_eq_true, mem_range, Bool.and_eq_true, decide_eq_true_eq,
    Option.any_eq_true]
  constructor
  · rintro ⟨j, -, hne, e, he, hr⟩
    exact ⟨j, e, by simpa using hne, he, hr⟩
  · rintro ⟨j, e, hne, he, hr⟩
    refine ⟨j, ?_, by simpa using hne, e, he, hr⟩
    by_contra hge
    simp [entryAt, getElem?_eq_none (Nat.le_of_not_lt hge)] at he

instance [DecidableEq R] (i j : ℕ) : Decidable (d.WaitsFor M i j) :=
  decidable_of_iff
    (i ≠ j ∧ ((d.entryAt i).any fun e => (d.entryAt j).any fun e' =>
      e.waiting.any fun r => decide (r ∈ M.held e'.txn)) = true) <| by
    simp only [WaitsFor, Option.any_eq_true, decide_eq_true_eq]
    constructor
    · rintro ⟨hne, e, he, e', he', r, hr, hheld⟩
      exact ⟨hne, e, e', r, he, he', hr, hheld⟩
    · rintro ⟨hne, e, e', r, he, he', hr, hheld⟩
      exact ⟨hne, e, he, e', he', r, hr, hheld⟩

/-- **The ranking rule.** -/
theorem not_deadlocked_of_rank {α : Type} [Preorder α] (rank : R → α)
    (h : ∀ i j e e' r r', i ≠ j → d.entryAt i = some e → d.entryAt j = some e' →
      e.waiting = some r → r ∈ M.held e'.txn → e'.waiting = some r' → rank r < rank r') :
    ¬ d.Deadlocked M := by
  rintro ⟨i, hc⟩
  have hg : ∀ j, Relation.TransGen (d.WaitsFor M) i j → ∀ e e' r r', d.entryAt i = some e →
      d.entryAt j = some e' → e.waiting = some r → e'.waiting = some r' → rank r < rank r' := by
    intro j hw
    induction hw with
    | single hs =>
      intro e e' r r' he he' hr hr'
      obtain ⟨hne, e₁, e₂, r₁, he₁, he₂, hr₁, hheld⟩ := hs
      rw [he] at he₁
      rw [he'] at he₂
      cases he₁
      cases he₂
      rw [hr] at hr₁
      cases hr₁
      exact h _ _ _ _ _ _ hne he he' hr hheld hr'
    | tail _ hs ih =>
      intro e e' r r' he he' hr hr'
      obtain ⟨hne, e₁, e₂, r₁, he₁, he₂, hr₁, hheld⟩ := hs
      rw [he'] at he₂
      cases he₂
      exact (ih e e₁ r r₁ he he₁ hr hr₁).trans (h _ _ _ _ _ _ hne he₁ he' hr₁ hheld hr')
  obtain ⟨e, r, he, hr⟩ : ∃ e r, d.entryAt i = some e ∧ e.waiting = some r := by
    obtain ⟨j, ⟨-, e, -, r, he, -, hr, -⟩, -⟩ := Relation.TransGen.head'_iff.mp hc
    exact ⟨e, r, he, hr⟩
  exact lt_irrefl _ (hg i hc e e r r he he hr hr)

theorem tables_apply_cases [DecidableEq R] (M : Protocol C R S P) (d : Database R S P) (op : Op C) :
    (d.apply M op).tables = d.tables ∨ ∃ i e locked, op = .advance i ∧ d.entryAt i = some e ∧
      M.execute d.tables locked e.txn = .committed (d.apply M op).tables := by
  have hs : ∀ i locked p, (d.settle i (M.execute d.tables locked p)).tables = d.tables ∨
      M.execute d.tables locked p =
        .committed (d.settle i (M.execute d.tables locked p)).tables := by
    intro i locked p
    cases hx : M.execute d.tables locked p with
    | committed => exact .inr rfl
    | running | rolledBack => exact .inl rfl
  cases op with
  | begin | rollBack => exact .inl rfl
  | advance i =>
    cases he : d.entryAt i with
    | none => exact .inl (by simp [apply, he])
    | some e =>
      have happly : d.apply M (.advance i) =
          d.settle i (M.execute d.tables (d.lockedByOthers M i) e.txn) ∨
          (d.apply M (.advance i)).tables = d.tables := by
        simp only [apply, he]
        split
        · exact .inl rfl
        · split
          · exact .inr rfl
          · exact .inl rfl
      rcases happly with h | h
      · rw [h]
        exact (hs i _ e.txn).imp_right fun hx => ⟨i, e, _, rfl, he, hx⟩
      · exact .inl h

theorem tables_apply [DecidableEq R] {I : S → Prop} (h : I d.tables) (op : Op C)
    (hc : ∀ {locked p s}, M.execute d.tables locked p = .committed s → I s) :
    I (d.apply M op).tables := by
  rcases tables_apply_cases M d op with heq | ⟨_, _, _, -, -, hx⟩
  · rwa [heq]
  · exact hc hx

end Database

namespace Protocol

variable [DecidableEq R] (M : Protocol C R S P)

structure Lawful : Prop where
  start : ∀ c, M.held (M.start c) = []
  grants : ∀ {s : S} {locked : R → Bool} {p p' : P}, M.execute s locked p = .running p' →
    ∀ r ∈ M.held p', r ∈ M.held p ∨ M.request s p = some r ∨ locked r = false

/-- The statement of `p` is not waiting. -/
def Granted (s : S) (locked : R → Bool) (p : P) : Prop :=
  ∀ r, M.request s p = some r → locked r = false

/-- The obligations of the invariant rule, for a property of the tables and one of each running
transaction. -/
structure NonInterfering (ok : S → P → R → Prop) (Inv : S → Prop)
    (Local : S → P → Option R → Prop) : Prop where
  start : ∀ {s : S} (c : C), Inv s → Local s (M.start c) none
  wait : ∀ {s : S} {p q : P} {r : R} {w w' : Option R}, Inv s → Local s p w → Local s q w' →
    (∀ r ∈ M.held p, r ∉ M.held q) → M.request s p = some r → r ∈ M.held q → ok s p r →
    Local s p (some r)
  step : ∀ {s : S} {locked : R → Bool} {p p' : P} {w : Option R}, Inv s → Local s p w →
    M.Granted s locked p → M.execute s locked p = .running p' → Local s p' none
  commit : ∀ {s s' : S} {locked : R → Bool} {p : P} {w : Option R}, Inv s → Local s p w →
    M.Granted s locked p → M.execute s locked p = .committed s' → Inv s'
  others : ∀ {s s' : S} {locked : R → Bool} {p q : P} {w w' : Option R}, Inv s → Local s p w →
    Local s q w' → (∀ r ∈ M.held p, r ∉ M.held q) → M.Granted s locked p →
    M.execute s locked p = .committed s' → Local s' q w'

/-- The condition on the steps of a database. -/
def WaitsOnly (ok : S → P → R → Prop) (d : Database R S P) : Op C → Prop
  | .advance i => ∀ e r, d.entryAt i = some e → M.request d.tables e.txn = some r →
      d.lockedByOthers M i r = true → ok d.tables e.txn r
  | _ => True

instance (ok : S → P → R → Prop) [∀ s p r, Decidable (ok s p r)] (d : Database R S P) :
    ∀ op, Decidable (M.WaitsOnly ok d op)
  | .advance i =>
    decidable_of_iff
      (((d.entryAt i).all fun e => (M.request d.tables e.txn).all fun r =>
        !d.lockedByOthers M i r || decide (ok d.tables e.txn r)) = true) <| by
      simp only [WaitsOnly, Option.all_eq_true, Bool.or_eq_true, Bool.not_eq_true',
        decide_eq_true_eq]
      constructor
      · intro h e r he hr hlocked
        rcases h e he r hr with hfree | hok
        · rw [hlocked] at hfree
          cases hfree
        · exact hok
      · intro h e he r hr
        cases hlocked : d.lockedByOthers M i r with
        | false => exact .inl rfl
        | true => exact .inr (h e r he hr hlocked)
  | .begin _ | .rollBack _ => isTrue trivial

structure Sound (Inv : S → Prop) (Local : S → P → Option R → Prop) (d : Database R S P) : Prop where
  tables : Inv d.tables
  locals : ∀ i e, d.entryAt i = some e → Local d.tables e.txn e.waiting
  exclusive : d.Exclusive M

variable {M} {ok : S → P → R → Prop} {Inv : S → Prop} {Local : S → P → Option R → Prop}
  {d : Database R S P}

omit [DecidableEq R] in
theorem Sound.exclusive_put (h : Sound M Inv Local d) {i : ℕ} {e : Option (Entry R P)}
    (hheld : ∀ e' ∈ e, ∀ r ∈ M.held e'.txn, ∀ j e'', j ≠ i → d.entryAt j = some e'' →
      r ∉ M.held e''.txn) : (d.put i e).Exclusive M := by
  have hs : ∀ e', (d.put i e).entryAt i = some e' → e = some e' := by
    intro e' he'
    simp only [entryAt, put, getElem?_set] at he'
    split at he'
    · split at he'
      · simpa using he'
      · simp at he'
    · simp_all
  intro a b ea eb r hea heb hra hrb
  by_cases ha : a = i
  · by_cases hb : b = i
    · rw [ha, hb]
    · subst ha
      rw [entryAt_put_of_ne (Ne.symm hb)] at heb
      exact absurd hrb (hheld ea (hs ea hea) r hra b eb hb heb)
  · rw [entryAt_put_of_ne (Ne.symm ha)] at hea
    by_cases hb : b = i
    · subst hb
      exact absurd hra (hheld eb (hs eb heb) r hrb a ea ha hea)
    · rw [entryAt_put_of_ne (Ne.symm hb)] at heb
      exact h.exclusive a b ea eb r hea heb hra hrb

theorem Sound.settle (h : Sound M Inv Local d) (hM : M.Lawful)
    (hru : M.NonInterfering ok Inv Local) {i : ℕ} {e : Entry R P} (he : d.entryAt i = some e)
    (hg : M.Granted d.tables (d.lockedByOthers M i) e.txn) :
    Sound M Inv Local (d.settle i (M.execute d.tables (d.lockedByOthers M i) e.txn)) := by
  have hl := h.locals i e he
  have ha : ∀ j e', j ≠ i → d.entryAt j = some e' → ∀ r ∈ M.held e.txn, r ∉ M.held e'.txn :=
    fun j e' hj he' r hr hr' => hj (h.exclusive j i e' e r he' he hr' hr)
  cases hx : M.execute d.tables (d.lockedByOthers M i) e.txn with
  | running =>
    refine ⟨h.tables, ?_, h.exclusive_put ?_⟩
    · intro j e' he'
      by_cases hj : j = i
      · subst hj
        rw [Database.settle, entryAt_put_self he] at he'
        cases he'
        exact hru.step h.tables hl hg hx
      · rw [Database.settle, entryAt_put_of_ne (Ne.symm hj)] at he'
        exact h.locals j e' he'
    · rintro e' ⟨⟩ r hr j e'' hj he'' hr''
      rcases hM.grants hx r hr with hold | hreq | hfree
      · exact ha j e'' hj he'' r hold hr''
      · have hfree := hg r hreq
        rw [lockedByOthers_iff.mpr ⟨j, e'', hj, he'', hr''⟩] at hfree
        cases hfree
      · rw [lockedByOthers_iff.mpr ⟨j, e'', hj, he'', hr''⟩] at hfree
        cases hfree
  | committed =>
    refine ⟨hru.commit h.tables hl hg hx, ?_, h.exclusive_put (by simp)⟩
    intro j e' he'
    by_cases hj : j = i
    · subst hj
      have hn : (d.put j none).entryAt j = some e' := he'
      rw [entryAt_put_none] at hn
      cases hn
    · have he'' : (d.put i none).entryAt j = some e' := he'
      rw [entryAt_put_of_ne (Ne.symm hj)] at he''
      exact hru.others h.tables hl (h.locals j e' he'') (ha j e' hj he'') hg hx
  | rolledBack =>
    refine ⟨h.tables, ?_, h.exclusive_put (by simp)⟩
    intro j e' he'
    by_cases hj : j = i
    · subst hj
      rw [Database.settle, entryAt_put_none] at he'
      cases he'
    · rw [Database.settle, entryAt_put_of_ne (Ne.symm hj)] at he'
      exact h.locals j e' he'

theorem Sound.apply (h : Sound M Inv Local d) (hM : M.Lawful)
    (hru : M.NonInterfering ok Inv Local) (op : Op C) (hok : M.WaitsOnly ok d op) :
    Sound M Inv Local (d.apply M op) := by
  cases op with
  | begin call =>
    refine ⟨h.tables, ?_, ?_⟩
    · intro i e he
      rcases entryAt_begin he with hold | rfl
      · exact h.locals i e hold
      · exact hru.start call h.tables
    · intro i j e e' r he he' hr hr'
      rcases entryAt_begin he with hold | rfl
      · rcases entryAt_begin he' with hold' | rfl
        · exact h.exclusive i j e e' r hold hold' hr hr'
        · simp [hM.start] at hr'
      · simp [hM.start] at hr
  | rollBack i =>
    refine ⟨h.tables, ?_, h.exclusive_put (by simp)⟩
    intro j e he
    by_cases hj : i = j
    · subst hj
      rw [Database.apply, entryAt_put_none] at he
      cases he
    · rw [Database.apply, entryAt_put_of_ne hj] at he
      exact h.locals j e he
  | advance i =>
    simp only [Database.apply]
    cases he : d.entryAt i with
    | none => exact h
    | some e =>
      simp only
      cases hr : M.request d.tables e.txn with
      | none =>
        exact h.settle hM hru he fun r hr' => by rw [hr] at hr'; cases hr'
      | some r =>
        simp only
        cases hlocked : d.lockedByOthers M i r with
        | false =>
          refine h.settle hM hru he fun r' hr' => ?_
          rw [hr] at hr'
          cases hr'
          exact hlocked
        | true =>
          obtain ⟨k, ek, hk, hek, hrk⟩ := lockedByOthers_iff.mp hlocked
          have ha : ∀ r ∈ M.held e.txn, r ∉ M.held ek.txn :=
            fun r hr hr' => hk (h.exclusive k i ek e r hek he hr' hr)
          refine ⟨h.tables, ?_, h.exclusive_put ?_⟩
          · intro j e' he'
            by_cases hj : j = i
            · subst hj
              rw [if_pos rfl, entryAt_put_self he] at he'
              cases he'
              exact hru.wait h.tables (h.locals j e he) (h.locals k ek hek) ha hr hrk
                (hok e r he hr hlocked)
            · rw [if_pos rfl, entryAt_put_of_ne (Ne.symm hj)] at he'
              exact h.locals j e' he'
          · rintro e' ⟨⟩ r' hr' j e'' hj he'' hr''
            exact hj (h.exclusive j i e'' e r' he'' he hr'' hr')

/-- **The invariant rule.** -/
theorem NonInterfering.sound (hr : M.NonInterfering ok Inv Local) (hM : M.Lawful) {s : S}
    (hs : Inv s) {ops : List (Op C)}
    (hops : History.Admissible (Database.apply M) (M.WaitsOnly ok) { tables := s } ops) :
    Sound M Inv Local (ops.foldl (Database.apply M) { tables := s }) := by
  refine hops.invariant (Sound M Inv Local) (fun d op hd hop => hd.apply hM hr op hop) ?_
  exact ⟨hs, by simp [entryAt], by simp [Database.Exclusive, entryAt]⟩

theorem NonInterfering.sound_all (hr : M.NonInterfering (fun _ _ _ => True) Inv Local)
    (hM : M.Lawful) {s : S} (hs : Inv s) (ops : List (Op C)) :
    Sound M Inv Local (ops.foldl (Database.apply M) { tables := s }) := by
  have hall : History.Admissible (Database.apply M) (fun _ _ => True) { tables := s } ops :=
    History.admissible_const.2 fun _ _ => trivial
  refine hr.sound hM hs (hall.mono ?_)
  rintro _ (_ | i | i) -
  · trivial
  · exact fun _ _ _ _ _ => trivial
  · trivial

end Protocol

end RowLocking
