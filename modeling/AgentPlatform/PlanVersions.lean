/-
**Task plans without lost updates.**
-/

import AgentPlatform.RecoveredPlan
import AgentPlatform.RowLocking

namespace AgentPlatform

open RowLocking List

inductive PlanCall where
  | update (update : TaskPlanUpdate)
  | rewind (checkpointId : Uuid) (now : Timestamp)

inductive PlanTxn where
  | begun (call : PlanCall)
  | locked (call : PlanCall) (epoch : ℕ)
  | read (update : TaskPlanUpdate) (epoch version : ℕ)

namespace RunStore

variable {s s' : RunStore}

def plansOf (s : RunStore) (epoch : ℕ) : List TaskPlanRecord :=
  s.taskPlans.filter (·.executionEpoch = epoch)

/-- The versions of each epoch are `1..n`. -/
structure PlansNumbered (s : RunStore) : Prop where
  numbered : ∀ epoch, (s.plansOf epoch).map (·.version) = List.range' 1 (s.plansOf epoch).length
  past : ∀ p ∈ s.taskPlans, p.executionEpoch ≤ s.run.executionEpoch

theorem PlansNumbered.planVersion_eq (h : s.PlansNumbered) (epoch : ℕ) :
    s.planVersion epoch = (s.plansOf epoch).length := by
  have hn := h.numbered epoch
  unfold planVersion latestPlan
  change (List.foldl _ none (s.plansOf epoch)).elim 0 _ = _
  generalize s.plansOf epoch = rows at hn
  induction rows using reverseRecOn with
  | nil => rfl
  | append_singleton rows p ih =>
    rw [map_append, length_append, length_singleton, range'_concat] at hn
    obtain ⟨hrows, hlast⟩ := append_inj' hn rfl
    have hp : p.version = rows.length + 1 := by simpa [Nat.add_comm] using hlast
    have hbest := ih hrows
    rw [foldl_append]
    generalize List.foldl _ none rows = best at hbest
    cases best with
    | none => simp [hp]
    | some b =>
      have hle : b.version ≤ rows.length := hbest.le
      simp [hle, hp]

theorem PlansNumbered.concat (h : s.PlansNumbered) {row : TaskPlanRecord}
    (hplans : s'.taskPlans = s.taskPlans ++ [row])
    (hv : row.version = s.planVersion row.executionEpoch + 1)
    (hrow : row.executionEpoch ≤ s'.run.executionEpoch)
    (hrun : s.run.executionEpoch ≤ s'.run.executionEpoch) : s'.PlansNumbered := by
  refine ⟨fun epoch => ?_, fun p hp => ?_⟩
  · have hof : s'.plansOf epoch =
        s.plansOf epoch ++ if row.executionEpoch = epoch then [row] else [] := by
      rw [plansOf, hplans, filter_append, plansOf, filter_singleton]
      simp
    rw [hof]
    split
    next heq =>
      subst heq
      rw [map_append, h.numbered, length_append, length_singleton, range'_concat,
        map_cons, hv, h.planVersion_eq]
      simp [Nat.add_comm]
    · rw [append_nil]
      exact h.numbered epoch
  · rw [hplans] at hp
    rcases mem_append.1 hp with hp | hp
    · exact (h.past p hp).trans hrun
    · rw [mem_singleton.1 hp]
      exact hrow

theorem PlansNumbered.rewound {id : Uuid} {now : Timestamp} {r? : Option Run}
    (h : s.PlansNumbered) (hr : rewind s id now = .ok (r?, s')) : s'.PlansNumbered := by
  obtain ⟨-, rfl⟩ | ⟨record, retained, run, -, -, hrun, -, rfl⟩ := rewind_ok hr
  · exact h
  obtain ⟨-, rfl⟩ := rewindRun_eq hrun
  have hnew : s.latestPlan (s.run.executionEpoch + 1) = none :=
    latestPlan_eq_none fun p hp => Nat.lt_succ_of_le (h.past p hp)
  refine h.concat rfl ?_ le_rfl (Nat.le_succ _)
  simp [planVersion, hnew]

end RunStore

def PlanTxn.Current (s : RunStore) : PlanTxn → Prop
  | .begun _ => True
  | .locked _ epoch => epoch = s.run.executionEpoch
  | .read _ epoch version => epoch = s.run.executionEpoch ∧ version = s.planVersion epoch

end AgentPlatform
