/-
**Task plans: versions without a fence.**
-/

import AgentPlatform.RewindBranches

namespace AgentPlatform

open History (Admissible)

structure TaskPlanUpdate where
  expectedVersion : ℕ
  plan : JsonObject
  deriving DecidableEq

def RunStore.latestPlan (s : RunStore) (epoch : ℕ) : Option TaskPlanRecord :=
  (s.taskPlans.filter (·.executionEpoch = epoch)).foldl
    (fun best p =>
      match best with
      | none => some p
      | some b => if b.version < p.version then some p else some b) none

def RunStore.planVersion (s : RunStore) (epoch : ℕ) : ℕ :=
  (s.latestPlan epoch).elim 0 (·.version)

theorem currentTaskPlan_eq (s : RunStore) (epoch : ℕ) :
    currentTaskPlan s epoch = (s.latestPlan epoch).elim .nil (·.plan) := rfl

def updateTaskPlan (s : RunStore) (update : TaskPlanUpdate) :
    Except Failure (TaskPlanRecord × RunStore) :=
  let currentVersion := s.planVersion s.run.executionEpoch
  if currentVersion ≠ update.expectedVersion then
    domainError "task_plan_version_conflict" "the task plan changed since it was read" false
      (.ofList [("expected_version", .num (Nat.repr update.expectedVersion)),
        ("current_version", .num (Nat.repr currentVersion))])
  else
    let row : TaskPlanRecord :=
      { executionEpoch := s.run.executionEpoch, version := currentVersion + 1, plan := update.plan }
    .ok (row, { s with taskPlans := s.taskPlans ++ [row] })

theorem updateTaskPlan_inv {s s' : RunStore} {update : TaskPlanUpdate} {row : TaskPlanRecord}
    (h : updateTaskPlan s update = .ok (row, s')) :
    s.planVersion s.run.executionEpoch = update.expectedVersion ∧
      row = { executionEpoch := s.run.executionEpoch
              version := s.planVersion s.run.executionEpoch + 1
              plan := update.plan } ∧
      s' = { s with taskPlans := s.taskPlans ++ [row] } := by
  unfold updateTaskPlan at h
  dsimp only at h
  split at h
  · cases h
  next hc =>
    cases h
    exact ⟨not_not.1 hc, rfl, rfl⟩

theorem updateTaskPlan_error {s : RunStore} {update : TaskPlanUpdate} {f : Failure}
    (h : updateTaskPlan s update = .error f) :
    s.planVersion s.run.executionEpoch ≠ update.expectedVersion := by
  intro hc
  unfold updateTaskPlan at h
  rw [if_neg (not_not.2 hc)] at h
  cases h

structure PlanCommit where
  generation : ℕ
  active : Bool
  row : TaskPlanRecord
  deriving DecidableEq

structure Planning where
  world : World
  handled : List (ℕ × String) := []
  log : List PlanCommit := []

inductive PlanningOp where
  | system (op : SystemOp)
  | update (generation : ℕ) (now : Timestamp)
  | userUpdate (update : TaskPlanUpdate)

def Planning.pending (w : Planning) (read : JsonObject → Option TaskPlanUpdate) (g : ℕ) :
    Option (RunLease × String × TaskPlanUpdate) :=
  (w.world.attempts g).bind fun a =>
    match a.due with
    | some (.toolReturned call _) =>
      if call.name = "update_task_plan" ∧ (g, call.id) ∉ w.handled then
        (read call.arguments).map (a.lease, call.id, ·)
      else none
    | _ => none

section Steps

variable (read : JsonObject → Option TaskPlanUpdate)

def Planning.runUpdate (w : Planning) (g : ℕ) (lease : RunLease) (callId : String)
    (update : TaskPlanUpdate) (now : Timestamp) : Planning :=
  let w' := { w with handled := w.handled ++ [(g, callId)] }
  match updateTaskPlan w.world.store update with
  | .error _ => w'
  | .ok (row, s) =>
    { w' with
      world := { w.world with store := s }
      log := w.log ++
        [{ generation := g, active := w.world.store.leaseActive lease now, row := row }] }

def Planning.apply (w : Planning) : PlanningOp → Planning
  | .system op => { w with world := w.world.apply op }
  | .update g now =>
    match w.pending read g with
    | some (lease, callId, update) => w.runUpdate g lease callId update now
    | none => w
  | .userUpdate update =>
    { w with world :=
        { w.world with store := w.world.store.commit (updateTaskPlan w.world.store update) } }

def Planning.StaleRejected (w : Planning) : PlanningOp → Prop
  | .update g now => ∀ p ∈ w.pending read g, w.world.store.leaseActive p.1 now = false →
      p.2.2.expectedVersion ≠ w.world.store.planVersion w.world.store.run.executionEpoch
  | _ => True

end Steps

def planning (x : Submission) : Planning := { world := submitted x }

def Planning.Fenced (w : Planning) : Prop := ∀ c ∈ w.log, c.active = true

section Fenced

variable {read : JsonObject → Option TaskPlanUpdate} {w : Planning}

theorem Planning.apply_log (w : Planning) (op : PlanningOp) : w.log <+: (w.apply read op).log := by
  cases op with
  | system | userUpdate => exact prefix_rfl
  | update =>
    unfold Planning.apply
    dsimp only
    split
    · unfold Planning.runUpdate
      dsimp only
      split
      · exact prefix_rfl
      · exact prefix_append _ _
    · exact prefix_rfl

theorem Planning.foldl_log (w : Planning) (ops : List PlanningOp) :
    w.log <+: (ops.foldl (Planning.apply read) w).log := by
  induction ops generalizing w with
  | nil => exact prefix_rfl
  | cons op _ ih => exact (w.apply_log op).trans (ih (w.apply read op))

theorem Planning.Fenced.runUpdate_iff (h : w.Fenced) (g : ℕ) (lease : RunLease) (callId : String)
    (update : TaskPlanUpdate) (now : Timestamp) : (w.world.store.leaseActive lease now = false →
      update.expectedVersion ≠ w.world.store.planVersion w.world.store.run.executionEpoch) ↔
      (w.runUpdate g lease callId update now).Fenced := by
  unfold Planning.runUpdate
  cases hu : updateTaskPlan w.world.store update with
  | error => exact ⟨fun _ => h, fun _ _ => (updateTaskPlan_error hu).symm⟩
  | ok p =>
    obtain ⟨_, _⟩ := p
    obtain ⟨hcu, -, -⟩ := updateTaskPlan_inv hu
    constructor
    · intro hs c hc
      rcases mem_append.1 hc with hold | hnew
      · exact h c hold
      · rw [mem_singleton.1 hnew]
        by_contra hl
        exact hs (not_eq_true _ |>.mp hl) hcu.symm
    · intro hf hl
      have ha : w.world.store.leaseActive lease now = true :=
        hf _ (mem_append_right _ (mem_singleton_self _))
      rw [ha] at hl
      cases hl

theorem Planning.Fenced.apply_iff (h : w.Fenced) (op : PlanningOp) :
    w.StaleRejected read op ↔ (w.apply read op).Fenced := by
  cases op with
  | system | userUpdate => exact ⟨fun _ => h, fun _ => trivial⟩
  | update g now =>
    unfold Planning.StaleRejected Planning.apply
    dsimp only
    cases w.pending read g with
    | none => exact ⟨fun _ => h, fun _ p hp => absurd hp (by simp)⟩
    | some p =>
      rw [← h.runUpdate_iff g p.1 p.2.1 p.2.2 now]
      constructor
      · intro hs
        exact hs p rfl
      · intro hs p' hp'
        obtain rfl := Option.mem_some_iff.1 hp'
        exact hs

end Fenced

/-- **The fence of the task plan, exactly**. -/
theorem plan_commits_active_iff (read : JsonObject → Option TaskPlanUpdate) (x : Submission)
    (ops : List PlanningOp) : (ops.foldl (Planning.apply read) (planning x)).Fenced ↔
      Admissible (Planning.apply read) (fun w op => w.StaleRejected read op) (planning x) ops := by
  have hstart : (planning x).Fenced := fun c hc => absurd hc not_mem_nil
  have hstep : ∀ (w : Planning) op, w.Fenced →
      (w.StaleRejected read op ↔ (w.apply read op).Fenced) := fun _ op h => h.apply_iff op
  refine Iff.trans ⟨?_, fun h => h ops prefix_rfl⟩ (Admissible.iff_along hstep hstart).symm
  rintro h _ ⟨rest, rfl⟩ c hc
  rw [foldl_append] at h
  exact h c ((Planning.foldl_log _ rest).subset hc)

def plannedTasks : JsonObject :=
  .ofList [("tasks",
    .arr (.cons (.obj (.ofList [("id", .str "t1"), ("title", .str "test")])) .nil))]

def planArguments : JsonObject :=
  .ofList [("expected_version", .num "1"), ("tasks", .arr .nil)]

def readPlanArguments (arguments : JsonObject) : Option TaskPlanUpdate :=
  if arguments = planArguments then some { expectedVersion := 1, plan := plannedTasks } else none

def planEnv : LoopEnv :=
  scriptedEnv 10 (fun name => if name = "update_task_plan" then some .controlMutation else none)
    [proposing [{ id := "call-1", name := "update_task_plan", arguments := planArguments }],
     { events := [.textDelta "done", .responseCompleted .stop] }]
    (fun _ => { items := [.completed (.ofList [("task_plan", .obj plannedTasks)])] })

def stalledUpdate : List PlanningOp :=
  (attemptOps 1 planEnv 5 100 ++ workOps 1 9 6 ++ [SystemOp.recoverExpired 101] ++
    attemptOps 2 planEnv 102 200).map .system ++ [.update 1 103]

theorem lost_attempt_commits_plan :
    ¬ ∀ (read : JsonObject → Option TaskPlanUpdate) (x : Submission) (ops : List PlanningOp),
      (ops.foldl (Planning.apply read) (planning x)).Fenced := by
  intro h
  have hfenced := h readPlanArguments (scriptedSubmission .autoApprove) stalledUpdate
  have hcommit : PlanCommit.mk 1 false { version := 2, plan := plannedTasks } ∈
      (stalledUpdate.foldl (Planning.apply readPlanArguments)
        (planning (scriptedSubmission .autoApprove))).log := by decide +kernel
  have hactive := hfenced _ hcommit
  cases hactive

end AgentPlatform
