/-
**Sandboxes of a node and the leases behind them.**
-/

import AgentPlatform.Fencing
import AgentPlatform.Histories

namespace AgentPlatform

open KeyedTable List

structure CreateSandboxRequest where
  lease : SandboxRequest
  sourceObjectKey : String
  sourceSha256 : String
  sourceSizeBytes : ℕ
  restore : Option (String × String × ℕ) := none
  deriving DecidableEq

structure SandboxEntry where
  sandboxId : Uuid
  request : CreateSandboxRequest
  capability : String
  deriving DecidableEq

structure NodeSandboxRegistry where
  maxSandboxes : ℕ
  bounds : 1 ≤ maxSandboxes ∧ maxSandboxes ≤ 4096
  entries : List SandboxEntry := []
  byLease : List ((Uuid × Uuid × ℕ) × Uuid) := []
  closed : Bool := false
  deriving DecidableEq

inductive RegistryError where
  | creationConflict | capacityExhausted | nodeClosed | notFound | cleanupFailed
  | sandbox (error : Failure)
  deriving DecidableEq

def RegistryError.failure : RegistryError → Failure
  | .creationConflict => .domain ⟨"sandbox_creation_conflict",
      "the run lease already owns a different sandbox request", false, .nil⟩
  | .capacityExhausted => .domain ⟨"sandbox_capacity_exhausted",
      "the node has no available sandbox capacity", true, .nil⟩
  | .nodeClosed => .domain ⟨"sandbox_node_closed", "the sandbox node agent is closed", true, .nil⟩
  | .notFound => .domain ⟨"sandbox_not_found", "the sandbox was not found", false, .nil⟩
  | .cleanupFailed => .domain ⟨"sandbox_node_cleanup_failed",
      "one or more node sandboxes could not be destroyed", true, .nil⟩
  | .sandbox error => error

def CreateSandboxRequest.key (q : CreateSandboxRequest) : Uuid × Uuid × ℕ :=
  (q.lease.runId, q.lease.leaseToken, q.lease.generation)

/-- `_capability_matches`; equal digests are equal texts. -/
def capabilityMatches (expected supplied : String) : Bool :=
  supplied.length = 64 && expected = supplied

namespace NodeSandboxRegistry

variable (n : NodeSandboxRegistry)

def create (q : CreateSandboxRequest) (sandboxId : Uuid) (capability : String)
    (made : Except Failure Unit) : Except RegistryError (SandboxEntry × NodeSandboxRegistry) :=
  if n.closed then .error .nodeClosed
  else
    match (n.byLease.lookup q.key).bind (KeyedTable.lookup SandboxEntry.sandboxId · n.entries) with
    | some existing =>
      if existing.request ≠ q then .error .creationConflict else .ok (existing, n)
    | none =>
      if n.maxSandboxes ≤ n.entries.length then .error .capacityExhausted
      else
        match made with
        | .error e => .error (.sandbox e)
        | .ok () =>
          let entry : SandboxEntry :=
            { sandboxId := sandboxId, request := q, capability := capability }
          .ok (entry, { n with
            entries := KeyedTable.upsert SandboxEntry.sandboxId entry n.entries
            byLease := KeyedTable.upsert Prod.fst (q.key, sandboxId) n.byLease })

def destroy (sandboxId : Uuid) (capability : String) (destroyed : Except Failure Unit) :
    Except RegistryError NodeSandboxRegistry :=
  if n.closed then .error .nodeClosed
  else
    match KeyedTable.lookup SandboxEntry.sandboxId sandboxId n.entries with
    | none => .error .notFound
    | some entry =>
      if !capabilityMatches entry.capability capability then .error .notFound
      else
        match destroyed with
        | .error e => .error (.sandbox e)
        | .ok () => .ok { n with
            entries := n.entries.filter (·.sandboxId ≠ sandboxId)
            byLease := n.byLease.filter (·.1 ≠ entry.request.key) }

def aclose (stuck : List Uuid) : Except RegistryError NodeSandboxRegistry :=
  if n.closed then .ok n
  else if n.entries.any (·.sandboxId ∈ stuck) then .error .cleanupFailed
  else .ok { n with entries := [], byLease := [], closed := true }

end NodeSandboxRegistry

structure SandboxNode where
  fleet : Fleet
  now : Timestamp
  registry : NodeSandboxRegistry
  accepted : List CreateSandboxRequest := []

inductive NodeOp where
  | queue (op : FleetOp)
  | tick (now : Timestamp)
  | authorize (q : CreateSandboxRequest)
  | create (q : CreateSandboxRequest) (sandboxId : Uuid) (capability : String)
      (made : Except Failure Unit)
  | destroy (sandboxId : Uuid) (capability : String) (destroyed : Except Failure Unit)
  | close (stuck : List Uuid)

namespace SandboxNode

def accepts (s : SandboxNode) (q : CreateSandboxRequest) : Bool := s.fleet.authorized q.lease s.now

def step (s : SandboxNode) : NodeOp → SandboxNode
  | .queue op => { s with fleet := s.fleet.apply op }
  | .tick t => { s with now := max s.now t }
  | .authorize q => if s.accepts q then { s with accepted := q :: s.accepted } else s
  | .create q id capability made =>
    if q ∈ s.accepted then
      let s := { s with accepted := s.accepted.erase q }
      match s.registry.create q id capability made with
      | .ok (_, n) => { s with registry := n }
      | .error _ => s
    else s
  | .destroy id capability destroyed =>
    match s.registry.destroy id capability destroyed with
    | .ok n => { s with registry := n }
    | .error _ => s
  | .close stuck =>
    match s.registry.aclose stuck with
    | .ok n => { s with registry := n }
    | .error _ => s

def requests (s : SandboxNode) : List CreateSandboxRequest :=
  s.accepted ++ s.registry.entries.map SandboxEntry.request

def KeepsLeases (s : SandboxNode) (op : NodeOp) : Prop :=
  ∀ q ∈ s.requests, s.accepts q → (s.step op).accepts q

instance (s : SandboxNode) (op : NodeOp) : Decidable (s.KeepsLeases op) :=
  inferInstanceAs (Decidable (∀ q ∈ s.requests, s.accepts q → (s.step op).accepts q))

structure Live (s : SandboxNode) : Prop where
  fits : s.registry.entries.length ≤ s.registry.maxSandboxes
  accepts : ∀ q ∈ s.requests, s.accepts q

variable {s : SandboxNode} {op : NodeOp}

theorem Live.of_subset {n : NodeSandboxRegistry} (h : s.Live)
    (hmax : n.maxSandboxes = s.registry.maxSandboxes) (hn : n.entries.Sublist s.registry.entries)
    {accepted : List CreateSandboxRequest} (ha : accepted ⊆ s.accepted) :
    Live { s with registry := n, accepted := accepted } := by
  refine ⟨hn.length_le.trans (h.fits.trans_eq hmax.symm), fun q hq => h.accepts q ?_⟩
  rcases mem_append.1 hq with hq | hq
  · exact mem_append_left _ (ha hq)
  · exact mem_append_right _ ((hn.map _).subset hq)

theorem Live.create {q : CreateSandboxRequest} {id : Uuid} {capability : String}
    {made : Except Failure Unit} (h : s.Live) : (s.step (.create q id capability made)).Live := by
  rw [SandboxNode.step]
  split
  case isFalse => exact h
  rename_i hq
  have herase : Live { s with accepted := s.accepted.erase q } :=
    h.of_subset rfl (.refl _) erase_subset
  dsimp only
  split
  case h_2 => exact herase
  rename_i n hc
  unfold NodeSandboxRegistry.create at hc
  split at hc
  · cases hc
  split at hc
  · split at hc
    · cases hc
    · cases hc
      exact herase
  split at hc
  · cases hc
  rename_i hfull
  split at hc
  · cases hc
  cases hc
  refine ⟨?_, fun p hp => ?_⟩
  · have hle : (upsert SandboxEntry.sandboxId ⟨id, q, capability⟩
        s.registry.entries).countP (fun _ => true) ≤ s.registry.entries.countP (fun _ => true) + 1 :=
      countP_upsert_le _ _ _
    rw [countP_true] at hle
    exact hle.trans (not_le.1 hfull)
  · rcases mem_append.1 hp with hp | hp
    · exact h.accepts p (mem_append_left _ (erase_subset hp))
    · obtain ⟨e, he, rfl⟩ := List.mem_map.1 hp
      rcases mem_of_mem_upsert he with rfl | he
      · exact h.accepts q (mem_append_left _ hq)
      · exact h.accepts _ (mem_append_right _ (List.mem_map_of_mem he))

theorem Live.step (h : s.Live) (hop : s.KeepsLeases op) : (s.step op).Live := by
  cases op with
  | queue | tick => exact ⟨h.fits, fun q hq => hop q hq (h.accepts q hq)⟩
  | authorize q =>
    rw [SandboxNode.step]
    split
    next ha =>
      refine ⟨h.fits, fun p hp => ?_⟩
      rcases mem_cons.1 hp with rfl | hp
      · exact ha
      · exact h.accepts p hp
    · exact h
  | create => exact h.create
  | destroy =>
    rw [SandboxNode.step]
    split
    next hd =>
      unfold NodeSandboxRegistry.destroy at hd
      repeat' split at hd
      all_goals cases hd
      exact h.of_subset (by rfl) filter_sublist (List.Subset.refl _)
    · exact h
  | close =>
    rw [SandboxNode.step]
    split
    next hd =>
      unfold NodeSandboxRegistry.aclose at hd
      repeat' split at hd
      all_goals cases hd
      · exact h
      · exact h.of_subset (by rfl) (nil_sublist _) (List.Subset.refl _)
    · exact h

end SandboxNode

/-- **Capacity is held by live leases**. -/
theorem sandbox_capacity_live (fleet : Fleet) (now : Timestamp) (n : NodeSandboxRegistry)
    (hn : n.entries = []) (ops : List NodeOp)
    (hops : History.Admissible SandboxNode.step SandboxNode.KeepsLeases ⟨fleet, now, n, []⟩ ops)
    (q : CreateSandboxRequest) (id : Uuid) (capability : String) (made : Except Failure Unit) :
    let s := ops.foldl SandboxNode.step ⟨fleet, now, n, []⟩
    s.registry.create q id capability made = .error .capacityExhausted →
      s.registry.entries.length = s.registry.maxSandboxes ∧
        ∀ e ∈ s.registry.entries, s.accepts e.request := by
  intro s hs
  have h₀ : SandboxNode.Live ⟨fleet, now, n, []⟩ := by
    refine ⟨by simp [hn], ?_⟩
    simp [SandboxNode.requests, hn]
  have hl : s.Live := hops.invariant SandboxNode.Live (fun _ _ hs hop => hs.step hop) h₀
  refine ⟨le_antisymm hl.fits ?_, fun e he => ?_⟩
  · unfold NodeSandboxRegistry.create at hs
    repeat' split at hs
    all_goals first
      | assumption
      | cases hs
  · exact hl.accepts _ (List.mem_append_right _ (List.mem_map_of_mem he))

def twoRuns : List FleetOp :=
  let run (runId workspaceId : Uuid) : FleetOp := .submit
    { tenantId := 1, runId := runId, sessionId := 3, workspaceId := workspaceId
      routeName := "route", approvalMode := .autoApprove, messageId := runId, task := "task"
      plan := untaskedPlan, createdAt := 0 }
  let second : RunLease := { zombieLease with
    runId := 6, workspaceId := 7, leaseToken := 102, acquiredAt := 18, expiresAt := 28 }
  [ run 2 4, run 6 7,
    .registerWorker
      { workerId := "w", totalSlots := 2, availableSlots := 2, status := .active
        registeredAt := 0, lastHeartbeatAt := 0 },
    .claim "w" 1 2 100 101 10 20, .start zombieLease 11,
    .claim "w" 1 6 102 103 18 28, .start second 19 ]

def sandboxFor (runId workspaceId token : Uuid) : CreateSandboxRequest :=
  { lease :=
      { tenantId := 1, runId := runId, sessionId := 3, workspaceId := workspaceId, workerId := "w"
        leaseToken := token, generation := 1 }
    sourceObjectKey := "key", sourceSha256 := "sha", sourceSizeBytes := 1 }

def capabilityOf (digit : Char) : String := String.ofList (List.replicate 64 digit)

def oneSandbox : List NodeOp :=
  [.authorize (sandboxFor 2 4 100), .create (sandboxFor 2 4 100) 8 (capabilityOf 'a') (.ok ())]

theorem sandbox_capacity_live_full :
    let s := oneSandbox.foldl SandboxNode.step
      ⟨Fleet.after twoRuns, 19, { maxSandboxes := 1, bounds := by decide }, []⟩
    ∀ e ∈ s.registry.entries, s.accepts e.request := by
  exact (sandbox_capacity_live _ _ _ rfl oneSandbox (by decide) (sandboxFor 6 7 102) 9
    (capabilityOf 'b') (.ok ()) (by decide)).2

theorem sandbox_capacity_crashed :
    let s := (oneSandbox ++ [NodeOp.tick 22, .authorize (sandboxFor 6 7 102)]).foldl SandboxNode.step
      ⟨Fleet.after twoRuns, 19, { maxSandboxes := 1, bounds := by decide }, []⟩
    s.accepted = [sandboxFor 6 7 102] ∧
      s.registry.create (sandboxFor 6 7 102) 9 (capabilityOf 'b') (.ok ()) = .error .capacityExhausted ∧
      s.registry.entries.map (s.accepts ·.request) = [false] := by
  decide

end AgentPlatform
