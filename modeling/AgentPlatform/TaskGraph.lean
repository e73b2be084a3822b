/-
**Task plans: the graph of their tasks, and plans of the older form.**
-/

import AgentPlatform.ContextPipeline
import AgentPlatform.DepthFirst
import AgentPlatform.JsonText
import AgentPlatform.KeyedTable

namespace AgentPlatform

open KeyedTable Relation List

inductive TaskStatus where
  | pending | inProgress | completed | blocked | cancelled
  deriving DecidableEq

structure TrackedTask where
  id : String
  title : String
  status : TaskStatus := .pending
  details : String := ""
  dependsOn : List String := []
  deriving DecidableEq

open TrackedTask

/-- `dependencies[identifier]`. -/
def dependencies (tasks : List TrackedTask) (identifier : String) : List String :=
  ((lookup (·.id) identifier tasks).map (·.dependsOn)).getD []

def TrackedTask.incomplete (tasks : List TrackedTask) (task : TrackedTask) : Bool :=
  (task.status = .inProgress || task.status = .completed) && task.dependsOn.any fun dependency =>
    (lookup (·.id) dependency tasks).map (·.status) ≠ some .completed

def validateGraph (tasks : List TrackedTask) : Except String Unit :=
  if ¬ (tasks.map (·.id)).Nodup then .error "task IDs must be unique"
  else if ∃ task ∈ tasks, ∃ dependency ∈ task.dependsOn, dependency ∉ tasks.map (·.id) then
    .error "task dependencies must reference tasks in the same plan"
  else if ¬ (DepthFirst.search (dependencies tasks) (tasks.map (·.id))).isOk then
    .error "task dependencies must be acyclic"
  else if tasks.any (·.incomplete tasks) then
    .error "in-progress and completed tasks require completed dependencies"
  else .ok ()

/-- `TaskPlanUpdate`, with the bound on the number of its tasks. -/
def taskPlanUpdate (tasks : List TrackedTask) : Except String Unit :=
  if 500 < tasks.length then .error "tasks" else validateGraph tasks

def DependsOn (tasks : List TrackedTask) (x y : String) : Prop :=
  ∃ task ∈ tasks, task.id = x ∧ y ∈ task.dependsOn

structure ValidGraph (tasks : List TrackedTask) : Prop where
  unique : Unique (·.id) tasks
  known : ∀ task ∈ tasks, ∀ dependency ∈ task.dependsOn, ∃ t ∈ tasks, t.id = dependency
  acyclic : ∀ x, ¬ TransGen (DependsOn tasks) x x
  begun : ∀ task ∈ tasks, task.status = .inProgress ∨ task.status = .completed →
    ∀ t ∈ tasks, t.id ∈ task.dependsOn → t.status = .completed

variable {tasks : List TrackedTask}

theorem edge_dependencies (h : Unique (·.id) tasks) :
    DepthFirst.Edge (dependencies tasks) = DependsOn tasks := by
  funext x y
  refine propext ⟨fun hxy => ?_, ?_⟩
  · unfold DepthFirst.Edge dependencies at hxy
    cases hf : lookup (·.id) x tasks with
    | none => simp [hf] at hxy
    | some task =>
      rw [hf] at hxy
      exact ⟨task, (lookup_some hf).1, (lookup_some hf).2, hxy⟩
  · rintro ⟨task, ht, rfl, hy⟩
    simpa [DepthFirst.Edge, dependencies, h.lookup_eq_some_iff.2 ⟨ht, rfl⟩] using hy

theorem TrackedTask.incomplete_eq_false (h : Unique (·.id) tasks)
    (hknown : ∀ task ∈ tasks, ∀ dependency ∈ task.dependsOn, ∃ t ∈ tasks, t.id = dependency) :
    tasks.any (·.incomplete tasks) = false ↔
      ∀ task ∈ tasks, task.status = .inProgress ∨ task.status = .completed →
        ∀ t ∈ tasks, t.id ∈ task.dependsOn → t.status = .completed := by
  rw [any_eq_false]
  refine forall₂_congr fun task ht => ?_
  simp only [incomplete, and_eq_true, or_eq_true, decide_eq_true_eq, any_eq_true,
    not_and, not_exists]
  refine forall_congr' fun _ => ⟨fun hall t htm hdep => ?_, fun hall dependency hdep => ?_⟩
  · have := hall t.id hdep
    rw [h.lookup_eq_some_iff.2 ⟨htm, rfl⟩] at this
    simpa using this
  · obtain ⟨t, htm, rfl⟩ := hknown task ht dependency hdep
    rw [h.lookup_eq_some_iff.2 ⟨htm, rfl⟩]
    simpa using hall t htm hdep

theorem validateGraph_ok_iff : validateGraph tasks = .ok () ↔ ValidGraph tasks := by
  unfold validateGraph
  split
  next hdup => exact iff_of_false nofun fun h => hdup h.unique
  rename_i hun
  rw [not_not] at hun
  split
  next hu =>
    obtain ⟨task, ht, dependency, hdep, hnot⟩ := hu
    exact iff_of_false nofun fun h => hnot (by simpa using h.known task ht dependency hdep)
  rename_i hknown
  have hknown' : ∀ task ∈ tasks, ∀ dependency ∈ task.dependsOn, ∃ t ∈ tasks, t.id = dependency := by
    simpa using hknown
  have hs : (DepthFirst.search (dependencies tasks) (tasks.map (·.id))).isOk = true ↔
      ∀ x, ¬ TransGen (DependsOn tasks) x x := by
    rw [DepthFirst.search_ok_iff, edge_dependencies hun]
    · refine ⟨fun h x hxx => ?_, fun h x _ => h x⟩
      obtain ⟨y, ⟨task, ht, rfl, -⟩, -⟩ := TransGen.head'_iff.1 hxx
      exact h _ (mem_map.2 ⟨task, ht, rfl⟩) hxx
    · intro x _ y hy
      have hedge : DepthFirst.Edge (dependencies tasks) x y := hy
      rw [edge_dependencies hun] at hedge
      obtain ⟨task, ht, rfl, hdep⟩ := hedge
      exact mem_map.2 (hknown' task ht y hdep)
  split
  next hcycle => exact iff_of_false nofun fun h => hcycle (hs.2 h.acyclic)
  rename_i ha
  rw [not_not, hs] at ha
  split
  next hbegun =>
    refine iff_of_false nofun fun h => ?_
    rw [(incomplete_eq_false hun hknown').2 h.begun] at hbegun
    cases hbegun
  next hbegun =>
    refine iff_of_true rfl ⟨hun, hknown', ha, ?_⟩
    exact (incomplete_eq_false hun hknown').1 (by simpa using hbegun)

/-- **The validation of task graphs is exact**. -/
theorem taskPlanUpdate_ok_iff (tasks : List TrackedTask) :
    taskPlanUpdate tasks = .ok () ↔ tasks.length ≤ 500 ∧ ValidGraph tasks := by
  unfold taskPlanUpdate
  split
  next hlong => exact iff_of_false nofun fun h => by omega
  next hshort =>
    rw [validateGraph_ok_iff]
    exact (and_iff_right (not_lt.1 hshort)).symm

theorem ValidGraph.of_independent (hu : Unique (·.id) tasks)
    (h : ∀ task ∈ tasks, task.dependsOn = []) : ValidGraph tasks where
  unique := hu
  known task ht dependency hdep := by simp [h task ht] at hdep
  acyclic x hxx := by
    obtain ⟨y, ⟨task, ht, -, hy⟩, -⟩ := TransGen.head'_iff.1 hxx
    simp [h task ht] at hy
  begun task ht _ t _ hdep := by simp [h task ht] at hdep

theorem taskPlanUpdate_refuses_long : ∃ tasks, ValidGraph tasks ∧ taskPlanUpdate tasks ≠ .ok () := by
  let task (n : ℕ) : TrackedTask := { id := Nat.repr n, title := "task" }
  refine ⟨(List.range 501).map task, .of_independent ?_ ?_, ?_⟩
  · rw [KeyedTable.Unique, List.map_map]
    exact List.nodup_range.map natRepr_injective
  · rintro _ ht
    obtain ⟨n, -, rfl⟩ := mem_map.1 ht
    rfl
  · rw [taskPlanUpdate, if_pos (by simp)]
    simp

/-- What Python makes of a value. -/
structure PythonText where
  /-- `json.dumps(value, allow_nan=False, ...)`. A number such as `1e400` is read as `inf`, for which
  it raises. -/
  dumps : Json → Option String
  str : Json → String

/-- `value[:length]`. -/
def cutText (length : ℕ) (value : String) : String := String.ofList (value.toList.take length)

def TaskStatus.ofValue? : String → Option TaskStatus
  | "pending" => some .pending
  | "in_progress" => some .inProgress
  | "completed" => some .completed
  | "blocked" => some .blocked
  | "cancelled" => some .cancelled
  | _ => none

def legacyStatus (step : JsonObject) : TaskStatus :=
  let fallback := if step.get? "done" = some (.bool true) then .completed else .pending
  match step.get? "status" with
  | some (.str value) => (TaskStatus.ofValue? value).getD fallback
  | _ => fallback

/-- The value of `title`, or else of `text`. -/
def legacyTitle (step : JsonObject) : Json :=
  (step.get? "title").getD ((step.get? "text").getD .null)

def legacyStep (text : PythonText) (index : ℕ) (step : Json) : TrackedTask :=
  let numbered := "Legacy step " ++ Nat.repr index
  let id := "legacy-step-" ++ Nat.repr index
  match step with
  | .obj fields =>
    let title := match legacyTitle fields with
      | .str title => pythonStrip title
      | _ => numbered
    { id, title := cutText 1000 title, status := legacyStatus fields
      details := cutText 16384 ((text.dumps step).getD "") }
  | _ =>
    let title := pythonStrip (text.str step)
    { id, title := cutText 1000 (if title = "" then numbered else title) }

def unhashable : Json → Bool
  | .obj fields => match fields.get? "status" with
    | some (.arr _) | some (.obj _) => true
    | _ => false
  | _ => false

def legacyPlan (text : PythonText) (plan : JsonObject) : TrackedTask :=
  { id := "legacy-plan", title := "Legacy task plan"
    details := cutText 16384 ((text.dumps (.obj plan)).getD "") }

inductive PlanError where
  | typeError
  | valueError
  | stateConflict (message : String)
  deriving DecidableEq

/-- What the conversion of a step raises. -/
def legacyStepError (text : PythonText) (step : Json) : Option PlanError :=
  if unhashable step then some .typeError
  else
    match step with
    | .obj _ => if text.dumps step = none then some .valueError else none
    | _ => none

def legacyTasks (text : PythonText) (plan : JsonObject) : Except PlanError (List TrackedTask) :=
  match plan.get? "steps" with
  | some (.arr steps) =>
    match steps.toList.findSome? (legacyStepError text) with
    | some e => .error e
    | none => .ok ((steps.toList.zipIdx 1).map fun e => legacyStep text e.2 e.1)
  | _ => if text.dumps (.obj plan) = none then .error .valueError else .ok [legacyPlan text plan]

def TrackedTask.stripped (task : TrackedTask) : TrackedTask :=
  { task with id := stripWhitespace task.id, title := stripWhitespace task.title
              dependsOn := task.dependsOn.map stripWhitespace }

/-- `TrackedTask.model_validate`. -/
def TrackedTask.validate (task : TrackedTask) : Option TrackedTask :=
  if (identifierString? task.id).isSome ∧ 1 ≤ task.stripped.title.length ∧
      task.stripped.title.length ≤ 1000 ∧ task.details.length ≤ 16384 ∧
      task.dependsOn.length ≤ 100 ∧ (∀ d ∈ task.dependsOn, (identifierString? d).isSome) ∧
      task.stripped.id ∉ task.stripped.dependsOn ∧ task.stripped.dependsOn.Nodup then
    some task.stripped
  else none

def taskStateDomain (text : PythonText) (stored : Json → Option TrackedTask) (plan : JsonObject) :
    Except PlanError (List TrackedTask) :=
  let validated (tasks : Option (List TrackedTask)) := match tasks with
    | some tasks => if taskPlanUpdate tasks matches .ok () then .ok tasks
      else .error (.stateConflict "durable task plan contains invalid task state")
    | none => .error (.stateConflict "durable task plan contains invalid task state")
  match plan.get? "tasks" with
  | none | some .null => match legacyTasks text plan with
    | .error e => .error e
    | .ok tasks => validated (tasks.mapM TrackedTask.validate)
  | some (.arr items) => validated (items.toList.mapM stored)
  | some _ => .error (.stateConflict "durable task plan contains a malformed task list")

structure Readable (text : PythonText) (step : Json) : Prop where
  converted : legacyStepError text step = none
  titled : ∀ fields title, step = .obj fields → legacyTitle fields = .str title →
    pythonStrip title ≠ ""

variable {text : PythonText} {step : Json} {index : ℕ}

theorem length_stripWhitespace_cutText {value : String} {c : Char}
    (hc : value.toList.head? = some c) (hstrip : isStripped c = false) :
    1 ≤ (stripWhitespace (cutText 1000 value)).length ∧
      (stripWhitespace (cutText 1000 value)).length ≤ 1000 := by
  obtain ⟨rest, hrest⟩ := head?_eq_some_iff.1 hc
  have hcut : (cutText 1000 value).toList = c :: rest.take 999 := by
    rw [cutText, toList_ofList, hrest]
    rfl
  have hlist : (stripWhitespace (cutText 1000 value)).toList =
      (c :: rest.take 999).rdropWhile isStripped := by
    rw [stripWhitespace, hcut, toList_ofList, dropWhile_cons_of_neg (by simp [hstrip])]
    rfl
  rw [← length_toList, hlist]
  refine ⟨length_pos_iff.2 fun h => ?_, ?_⟩
  · rw [rdropWhile_eq_nil_iff.1 h c (mem_cons_self ..)] at hstrip
    cases hstrip
  · refine (List.rdropWhile_prefix _ _).length_le.trans ?_
    simp

theorem head?_pythonStrip {value : String} (h : pythonStrip value ≠ "") :
    ∃ c, (pythonStrip value).toList.head? = some c ∧ isStripped c = false := by
  have hlist : (pythonStrip value).toList =
      (value.toList.dropWhile isSpace).rdropWhile isSpace := toList_ofList
  cases hd : value.toList.dropWhile isSpace with
  | nil =>
    refine absurd ?_ h
    rw [pythonStrip, hd]
    rfl
  | cons c rest =>
    have hspace : isSpace c = false := by
      have := head?_dropWhile_not isSpace value.toList
      rw [hd] at this
      simpa using this
    obtain ⟨right, hright⟩ := List.rdropWhile_prefix isSpace (c :: rest)
    rw [hlist, hd]
    refine ⟨c, ?_, ?_⟩
    · cases hkept : (c :: rest).rdropWhile isSpace with
      | nil => simp [rdropWhile_eq_nil_iff.1 hkept c (mem_cons_self ..)] at hspace
      | cons c' kept =>
        rw [hkept] at hright
        rw [head?_cons, (List.cons.inj hright).1]
    · simp only [isSpace, Bool.or_eq_false_iff] at hspace
      exact hspace.1

theorem legacyStep_title (h : Readable text step) :
    1 ≤ (legacyStep text index step).stripped.title.length ∧
      (legacyStep text index step).stripped.title.length ≤ 1000 := by
  have hn : ("Legacy step " ++ Nat.repr index).toList.head? = some 'L' := by
    rw [toList_append]
    rfl
  have htext : ∀ value, pythonStrip value ≠ "" → _ := fun value hne =>
    let ⟨_, hc, hs⟩ := head?_pythonStrip hne
    length_stripWhitespace_cutText hc hs
  unfold stripped legacyStep
  cases step with
  | obj fields =>
    dsimp only
    split
    next title ht => exact htext _ (h.titled fields title rfl ht)
    · exact length_stripWhitespace_cutText hn rfl
  | _ =>
    dsimp only
    split
    · exact length_stripWhitespace_cutText hn rfl
    next hne => exact htext _ hne

theorem TrackedTask.validate_of_independent {task : TrackedTask}
    (hid : identifierString? task.id = some task.id)
    (htitle : 1 ≤ task.stripped.title.length ∧ task.stripped.title.length ≤ 1000)
    (hd : task.details.length ≤ 16384) (hdeps : task.dependsOn = []) :
    task.validate = some task.stripped := by
  unfold validate
  rw [if_pos]
  exact ⟨by simp [hid], htitle.1, htitle.2, hd, by simp [hdeps, stripped]⟩

theorem length_cutText (length : ℕ) (value : String) : (cutText length value).length ≤ length := by
  rw [← length_toList, cutText, toList_ofList, length_take]
  exact min_le_left ..

theorem identifierString?_of_solid {value : String}
    (h : ∀ c ∈ value.toList, isStripped c = false) (hlen : 0 < value.length ∧ value.length ≤ 255) :
    identifierString? value = some value := by
  have hdrop : ∀ l : List Char, (∀ c ∈ l, isStripped c = false) → l.dropWhile isStripped = l := by
    intro l hl
    cases l with
    | nil => rfl
    | cons c l => exact dropWhile_cons_of_neg (by simp [hl c])
  have hs : stripWhitespace value = value := by
    rw [stripWhitespace, hdrop _ h, hdrop _ (by simpa using h), reverse_reverse,
      ofList_toList]
  simp [identifierString?, hs, hlen]

theorem legacyId (hindex : index ≤ 500) :
    identifierString? ("legacy-step-" ++ Nat.repr index) =
      some ("legacy-step-" ++ Nat.repr index) := by
  have hrepr := Nat.repr_length index 3 (by decide) (by omega)
  have hlen : ("legacy-step-" ++ Nat.repr index).length = 12 + (Nat.repr index).length :=
    String.length_append ..
  refine identifierString?_of_solid (fun c hc => ?_) (by omega)
  rw [toList_append, toList_natRepr, mem_append] at hc
  rcases hc with hc | hc
  · have hall : ("legacy-step-".toList.all fun c => !isStripped c) = true := by decide +kernel
    simpa using all_eq_true.1 hall c hc
  · have hdigit := Nat.isDigit_of_mem_toDigits (by decide) (by decide) hc
    simp only [Char.isDigit, and_eq_true, decide_eq_true_eq, ge_iff_le,
      UInt32.le_iff_toNat_le] at hdigit
    have h : 48 ≤ c.toNat ∧ c.toNat ≤ 57 := hdigit
    simp [isStripped]
    omega

theorem legacyStep_fields (text : PythonText) (index : ℕ) (step : Json) :
    (legacyStep text index step).id = "legacy-step-" ++ Nat.repr index ∧
    (legacyStep text index step).details.length ≤ 16384 ∧
    (legacyStep text index step).dependsOn = [] := by
  unfold legacyStep
  cases step with
  | obj => exact ⟨rfl, length_cutText .., rfl⟩
  | _ => exact ⟨rfl, Nat.zero_le _, rfl⟩

theorem stripped_legacyStep_id (hindex : index ≤ 500) :
    (legacyStep text index step).stripped.id = "legacy-step-" ++ Nat.repr index := by
  rw [stripped, (legacyStep_fields text index step).1]
  exact stripWhitespace_identifierString? (legacyId hindex)

theorem mapM_eq_some_map {α β : Type} {f : α → Option β} {g : α → β} :
    ∀ {l : List α}, (∀ x ∈ l, f x = some (g x)) → l.mapM f = some (l.map g)
  | [], _ => rfl
  | x :: l, h => by
      rw [mapM_cons, h x (mem_cons_self ..),
        mapM_eq_some_map fun y hy => h y (mem_cons_of_mem _ hy)]
      rfl

theorem taskStateDomain_of_independent (stored : Json → Option TrackedTask) {plan : JsonObject}
    {tasks : List TrackedTask} (htasks : plan.get? "tasks" = none)
    (hl : legacyTasks text plan = .ok tasks) (hle : tasks.length ≤ 500)
    (hvalid : ∀ task ∈ tasks, task.validate = some task.stripped ∧ task.dependsOn = [])
    (hu : Unique (·.id) (tasks.map stripped)) :
    taskStateDomain text stored plan = .ok (tasks.map stripped) := by
  have hgraph : taskPlanUpdate (tasks.map stripped) = .ok () := by
    rw [taskPlanUpdate, if_neg (by simpa using hle), validateGraph_ok_iff]
    refine .of_independent hu fun task ht => ?_
    obtain ⟨raw, hraw, rfl⟩ := mem_map.1 ht
    simp [stripped, (hvalid raw hraw).2]
  simp only [taskStateDomain, htasks, hl, mapM_eq_some_map fun task ht => (hvalid task ht).1,
    hgraph, if_true]

theorem taskStateDomain_steps {stored : Json → Option TrackedTask} {plan : JsonObject}
    {steps : JsonArray} (htasks : plan.get? "tasks" = none)
    (hsteps : plan.get? "steps" = some (.arr steps)) (hl : steps.toList.length ≤ 500)
    (hread : ∀ step ∈ steps.toList, Readable text step) : taskStateDomain text stored plan =
      .ok ((steps.toList.zipIdx 1).map fun e => (legacyStep text e.2 e.1).stripped) := by
  have hle : legacyTasks text plan =
      .ok ((steps.toList.zipIdx 1).map fun e => legacyStep text e.2 e.1) := by
    have hnone : steps.toList.findSome? (legacyStepError text) = none :=
      findSome?_eq_none_iff.2 fun step hs => (hread step hs).converted
    simp only [legacyTasks, hsteps, hnone]
  have hindex : ∀ e ∈ steps.toList.zipIdx 1, e.2 ≤ 500 := fun e he => by
    have := (List.mem_zipIdx he).2.1
    omega
  have hr := taskStateDomain_of_independent stored htasks hle
    (by simpa using hl) (fun task ht => ?_) ?_
  · rwa [List.map_map] at hr
  · obtain ⟨e, he, rfl⟩ := mem_map.1 ht
    obtain ⟨hid, hd, hdeps⟩ := legacyStep_fields text e.2 e.1
    refine ⟨TrackedTask.validate_of_independent ?_ (legacyStep_title ?_) hd hdeps, hdeps⟩
    · rw [hid]
      exact legacyId (hindex e he)
    · exact hread _ (List.fst_mem_of_mem_zipIdx he)
  · -- the numbers of the steps tell their identifiers apart
    have hids : ((steps.toList.zipIdx 1).map fun e => (legacyStep text e.2 e.1).stripped.id) =
        ((steps.toList.zipIdx 1).map Prod.snd).map fun index => "legacy-step-" ++ Nat.repr index := by
      rw [List.map_map]
      exact List.map_congr_left fun e he => stripped_legacyStep_id (hindex e he)
    rw [KeyedTable.Unique, List.map_map, List.map_map]
    refine hids ▸ ?_
    rw [List.zipIdx_map_snd]
    refine (List.nodup_range' ..).map fun i j hij => natRepr_injective ?_
    simpa using hij

/-! ### What a plan that was read says about its steps -/

theorem isSome_of_mapM {α β : Type} {f : α → Option β} :
    ∀ {l : List α} {r : List β}, l.mapM f = some r →
      r.length = l.length ∧ ∀ x ∈ l, (f x).isSome
  | [], _, h => by
    cases h
    exact ⟨rfl, by simp⟩
  | x :: l, r, h => by
    rw [mapM_cons] at h
    obtain ⟨y, hy, h⟩ := bind_eq_some_iff.1 h
    obtain ⟨r', hr', h⟩ := bind_eq_some_iff.1 h
    cases h
    obtain ⟨hlen, hall⟩ := isSome_of_mapM hr'
    exact ⟨by rw [length_cons, length_cons, hlen], forall_mem_cons.2 ⟨by simp [hy], hall⟩⟩

theorem taskStateDomain_legacy_ok {stored : Json → Option TrackedTask} {plan : JsonObject}
    {tasks : List TrackedTask} (htasks : plan.get? "tasks" = none)
    (h : taskStateDomain text stored plan = .ok tasks) :
    ∃ raw, legacyTasks text plan = .ok raw ∧ raw.length ≤ 500 ∧
      ∀ task ∈ raw, task.validate.isSome := by
  simp only [taskStateDomain, htasks] at h
  split at h
  · cases h
  next raw hraw =>
    split at h
    next checked hmap =>
      split at h
      next hgraph =>
        obtain ⟨hlen, hall⟩ := isSome_of_mapM hmap
        refine ⟨raw, hraw, ?_, hall⟩
        by_contra hlong
        rw [taskPlanUpdate, if_pos (by omega)] at hgraph
        simp at hgraph
      · cases h
    · cases h

theorem validate_blank_step {fields : JsonObject} {title : String}
    (ht : legacyTitle fields = .str title) (hblank : pythonStrip title = "") :
    (legacyStep text index (.obj fields)).validate = none := by
  have htitle : (legacyStep text index (.obj fields)).stripped.title = "" := by
    simp only [legacyStep, ht, hblank, TrackedTask.stripped]
    decide
  rw [TrackedTask.validate, if_neg]
  simp [htitle]

theorem readable_of_validate {index : ℕ} (herror : legacyStepError text step = none)
    (h : (legacyStep text index step).validate.isSome) : Readable text step where
  converted := herror
  titled := by
    rintro fields title rfl ht hblank
    rw [validate_blank_step ht hblank] at h
    cases h

theorem steps_of_taskStateDomain {stored : Json → Option TrackedTask} {plan : JsonObject}
    {steps : JsonArray} {tasks : List TrackedTask} (htasks : plan.get? "tasks" = none)
    (hsteps : plan.get? "steps" = some (.arr steps))
    (h : taskStateDomain text stored plan = .ok tasks) :
    steps.toList.length ≤ 500 ∧ ∀ step ∈ steps.toList, Readable text step := by
  obtain ⟨raw, hraw, hlen, hall⟩ := taskStateDomain_legacy_ok htasks h
  simp only [legacyTasks, hsteps] at hraw
  split at hraw
  · cases hraw
  next hnone =>
    cases hraw
    refine ⟨by simpa using hlen, fun step hs => ?_⟩
    obtain ⟨i, hi, rfl⟩ := List.mem_iff_getElem.1 hs
    have hmem : (steps.toList[i], i + 1) ∈ steps.toList.zipIdx 1 := by
      rw [List.mk_mem_zipIdx_iff_le_and_getElem?_sub]
      simp [hi]
    exact readable_of_validate (findSome?_eq_none_iff.1 hnone _ hs)
      (hall _ (mem_map_of_mem hmem))

/-- **Plans of the older form stay readable** exactly when each step can be converted and has a
title, and there are at most 500; a plan without steps when it can be written. -/
theorem taskStateDomain_legacy_iff (text : PythonText) (stored : Json → Option TrackedTask)
    (plan : JsonObject) (htasks : plan.get? "tasks" = none) :
    (∀ steps, plan.get? "steps" = some (.arr steps) →
      ((∃ tasks, taskStateDomain text stored plan = .ok tasks) ↔
        steps.toList.length ≤ 500 ∧ ∀ step ∈ steps.toList, Readable text step) ∧
      ∀ tasks, taskStateDomain text stored plan = .ok tasks →
        tasks = (steps.toList.zipIdx 1).map fun e => (legacyStep text e.2 e.1).stripped) ∧
    ((∀ steps, plan.get? "steps" ≠ some (.arr steps)) →
      ((∃ tasks, taskStateDomain text stored plan = .ok tasks) ↔
        text.dumps (.obj plan) ≠ none) ∧
      ∀ tasks, taskStateDomain text stored plan = .ok tasks →
        tasks = [(legacyPlan text plan).stripped]) := by
  refine ⟨fun steps hsteps => ⟨⟨?_, ?_⟩, ?_⟩, fun hsteps => ?_⟩
  · rintro ⟨tasks, h⟩
    exact steps_of_taskStateDomain htasks hsteps h
  · rintro ⟨hl, hread⟩
    exact ⟨_, taskStateDomain_steps htasks hsteps hl hread⟩
  · intro tasks h
    obtain ⟨hl, hread⟩ := steps_of_taskStateDomain htasks hsteps h
    rw [taskStateDomain_steps htasks hsteps hl hread] at h
    exact (Except.ok.inj h).symm
  · have hle : legacyTasks text plan = if text.dumps (.obj plan) = none then .error .valueError
        else .ok [legacyPlan text plan] := by
      unfold legacyTasks
      split
      next steps hs => exact absurd hs (hsteps steps)
      · rfl
    by_cases hdumps : text.dumps (.obj plan) = none
    · rw [if_pos hdumps] at hle
      have herror : taskStateDomain text stored plan = .error .valueError := by
        simp only [taskStateDomain, htasks, hle]
      simp [herror, hdumps]
    · rw [if_neg hdumps] at hle
      have hid : identifierString? "legacy-plan" = some "legacy-plan" := by decide +kernel
      have htitle : 1 ≤ (stripWhitespace "Legacy task plan").length ∧
          (stripWhitespace "Legacy task plan").length ≤ 1000 := by decide +kernel
      have hok : taskStateDomain text stored plan = .ok [(legacyPlan text plan).stripped] := by
        refine taskStateDomain_of_independent stored htasks hle (by simp) ?_ ?_
        · intro task ht
          obtain rfl := mem_singleton.1 ht
          exact ⟨TrackedTask.validate_of_independent hid htitle (length_cutText ..) rfl, rfl⟩
        · simp [KeyedTable.Unique]
      simp [hok, hdumps]

theorem taskStateDomain_legacy_step : ∃ (text : PythonText) (plan : JsonObject)
    (tasks : List TrackedTask), plan.get? "steps" = some (.arr (.cons (.str "Test") .nil)) ∧
      taskStateDomain text (fun _ => none) plan = .ok tasks := by
  let plan : JsonObject := .cons "steps" (.arr (.cons (.str "Test") .nil)) .nil
  let text : PythonText := ⟨fun _ => some "", fun _ => "Test"⟩
  have hread : ∀ step ∈ (JsonArray.cons (.str "Test") .nil).toList, Readable text step := by
    intro step hs
    obtain rfl := mem_singleton.1 hs
    exact ⟨rfl, nofun⟩
  obtain ⟨tasks, h⟩ := ((taskStateDomain_legacy_iff text (fun _ => none) plan rfl).1 _ rfl).1.2
    ⟨by decide, hread⟩
  exact ⟨text, plan, tasks, rfl, h⟩

theorem taskStateDomain_legacy_blank :
    ∃ (text : PythonText) (plan : JsonObject → JsonObject),
      (∀ step, (plan step).get? "steps" = some (.arr (.cons (.obj step) .nil))) ∧
      taskStateDomain text (fun _ => none) (plan (.cons "title" (.str " ") .nil)) =
        .error (.stateConflict "durable task plan contains invalid task state") ∧
      taskStateDomain text (fun _ => none) (plan (.cons "status" (.arr .nil) .nil)) =
        .error .typeError :=
  ⟨⟨fun _ => some "", fun _ => ""⟩, fun step => .cons "steps" (.arr (.cons (.obj step) .nil)) .nil,
    fun _ => rfl, by decide +kernel, by decide +kernel⟩

end AgentPlatform
