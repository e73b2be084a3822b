/-
**Policies of the gateway client: prices and rate limits.**
-/

import AgentPlatform.DomainValues
import AgentPlatform.KeyedTable

namespace AgentPlatform

open KeyedTable List Prod

def hasPlaces (places : ℕ) (x : ℚ) : Prop := (x * 10 ^ places).den = 1

/-- `Field(ge=0, max_digits=20, decimal_places=10)`.  Trailing zeros do not count, so that a value
is in the field if it has ten decimal places and at most ten digits before them. -/
def fitsUsd (x : ℚ) : Prop := 0 ≤ x ∧ hasPlaces 10 x ∧ x < 10 ^ 10

instance (places : ℕ) (x : ℚ) : Decidable (hasPlaces places x) :=
  inferInstanceAs (Decidable (_ = _))

instance (x : ℚ) : Decidable (fitsUsd x) := inferInstanceAs (Decidable (_ ∧ _ ∧ _))

structure RoutePrice where
  inputUsdPerMillion : ℚ
  outputUsdPerMillion : ℚ
  cachedInputUsdPerMillion : ℚ := 0
  fits : fitsUsd inputUsdPerMillion ∧ fitsUsd outputUsdPerMillion ∧ fitsUsd cachedInputUsdPerMillion

structure GatewayResponseCompleted where
  inputTokens : ℕ := 0
  outputTokens : ℕ := 0
  cachedTokens : ℕ := 0
  estimatedCostUsd : Option ℚ := none
  deriving DecidableEq

/-- The sum in `calculate`, in dollars for a million of the responses. -/
def RoutePrice.perMillion (price : RoutePrice) (event : GatewayResponseCompleted) : ℚ :=
  (event.inputTokens - event.cachedTokens : ℕ) * price.inputUsdPerMillion +
    event.cachedTokens * price.cachedInputUsdPerMillion +
    event.outputTokens * price.outputUsdPerMillion

def calculate (prices : String → Option RoutePrice) (routeName : String)
    (event : GatewayResponseCompleted) : Except Failure ℚ :=
  match prices routeName with
  | none => domainError "gateway_price_missing" "the selected route has no configured price"
      false (.cons "route_name" (.str routeName) .nil)
  | some price => .ok (price.perMillion event / 1000000)

/-- What `_execute_with_retries` does to a completed response. -/
def attributeCost (prices : String → Option RoutePrice) (routeName : String)
    (event : GatewayResponseCompleted) : Except Failure GatewayResponseCompleted :=
  if event.estimatedCostUsd.isSome then .ok event
  else do
    let cost ← calculate prices routeName event
    if fitsUsd cost then return { event with estimatedCostUsd := some cost }
    else throw (.validation "estimated_cost_usd")

theorem hasPlaces_iff {places : ℕ} {x : ℚ} :
    hasPlaces places x ↔ ∃ z : ℤ, x * 10 ^ places = z := by
  unfold hasPlaces
  constructor
  · exact fun h => ⟨_, ((Rat.den_eq_one_iff _).1 h).symm⟩
  · rintro ⟨z, hz⟩
    rw [hz, Rat.den_intCast]

theorem RoutePrice.hasPlaces_perMillion {price : RoutePrice} {event : GatewayResponseCompleted}
    {places : ℕ} (hi : hasPlaces places price.inputUsdPerMillion)
    (ho : hasPlaces places price.outputUsdPerMillion)
    (hc : hasPlaces places price.cachedInputUsdPerMillion) :
    hasPlaces places (price.perMillion event) := by
  obtain ⟨i, hi⟩ := hasPlaces_iff.1 hi
  obtain ⟨o, ho⟩ := hasPlaces_iff.1 ho
  obtain ⟨c, hc⟩ := hasPlaces_iff.1 hc
  refine hasPlaces_iff.2 ⟨(event.inputTokens - event.cachedTokens : ℕ) * i +
    event.cachedTokens * c + event.outputTokens * o, ?_⟩
  unfold perMillion
  push_cast [← hi, ← ho, ← hc]
  ring

theorem RoutePrice.perMillion_nonneg (price : RoutePrice) (event : GatewayResponseCompleted) :
    0 ≤ price.perMillion event := by
  have hi := price.fits.1.1
  have ho := price.fits.2.1.1
  have hc := price.fits.2.2.1
  unfold perMillion
  positivity

theorem fitsUsd_div_million {x : ℚ} (h : 0 ≤ x) :
    fitsUsd (x / 1000000) ↔ hasPlaces 4 x ∧ x < 10 ^ 16 := by
  unfold fitsUsd hasPlaces
  rw [show x / 1000000 * 10 ^ 10 = x * 10 ^ 4 by ring, div_lt_iff₀ (by norm_num)]
  have hpos : 0 ≤ x / 1000000 := by positivity
  norm_num [hpos]

/-- **Prices with four decimal places** give every cost below `10 ^ 10` USD; a larger one is
refused. -/
theorem attributeCost_ok_iff (prices : String → Option RoutePrice) (routeName : String)
    (price : RoutePrice) (hprice : prices routeName = some price) :
    ((∀ event, event.estimatedCostUsd = none → price.perMillion event < 10 ^ 16 →
      attributeCost prices routeName event =
        .ok { event with estimatedCostUsd := some (price.perMillion event / 1000000) }) ↔
    hasPlaces 4 price.inputUsdPerMillion ∧ hasPlaces 4 price.outputUsdPerMillion ∧
      hasPlaces 4 price.cachedInputUsdPerMillion) ∧
    ∀ event, event.estimatedCostUsd = none → 10 ^ 16 ≤ price.perMillion event →
      attributeCost prices routeName event ≠
        .ok { event with estimatedCostUsd := some (price.perMillion event / 1000000) } := by
  have hr : ∀ event, event.estimatedCostUsd = none → (attributeCost prices routeName event =
      .ok { event with estimatedCostUsd := some (price.perMillion event / 1000000) } ↔
      hasPlaces 4 (price.perMillion event) ∧ price.perMillion event < 10 ^ 16) := by
    intro event hnone
    rw [← fitsUsd_div_million (price.perMillion_nonneg event)]
    simp only [attributeCost, hnone, calculate, hprice, isSome_none, false_eq_true,
      if_false, bind, Except.bind]
    split
    next hfits => exact iff_of_true rfl hfits
    next hfits => exact iff_of_false nofun hfits
  refine ⟨⟨?_, ?_⟩, fun event hnone hlarge hok => ?_⟩
  · intro h
    have hone : ∀ event, event.estimatedCostUsd = none → price.perMillion event < 10 ^ 16 →
        hasPlaces 4 (price.perMillion event) := fun event hnone hlt =>
      ((hr event hnone).1 (h event hnone hlt)).1
    have hi := hone { inputTokens := 1 } rfl
    have ho := hone { outputTokens := 1 } rfl
    have hc := hone { cachedTokens := 1 } rfl
    have hfits := price.fits
    unfold fitsUsd at hfits
    simp only [RoutePrice.perMillion, tsub_zero, Nat.cast_one, one_mul, Nat.cast_zero, zero_mul,
      add_zero, zero_add, Nat.zero_sub] at hi ho hc
    exact ⟨hi (by linarith), ho (by linarith), hc (by linarith)⟩
  · rintro ⟨hi, ho, hc⟩ event hnone hlt
    exact (hr event hnone).2 ⟨RoutePrice.hasPlaces_perMillion hi ho hc, hlt⟩
  · exact absurd ((hr event hnone).1 hok).2 (not_lt.2 hlarge)

theorem attributeCost_ok_iff_four :
    ∃ price : RoutePrice, hasPlaces 4 price.inputUsdPerMillion ∧ ∀ event : GatewayResponseCompleted,
      event.estimatedCostUsd = none → price.perMillion event < 10 ^ 16 →
      attributeCost (fun _ => some price) "default" event =
        .ok { event with estimatedCostUsd := some (price.perMillion event / 1000000) } := by
  have hp : hasPlaces 4 (5 / 2) ∧ hasPlaces 4 10 ∧ hasPlaces 4 0 := by decide +kernel
  refine ⟨⟨5 / 2, 10, 0, by decide +kernel⟩, hp.1, ?_⟩
  exact (attributeCost_ok_iff (fun _ => some _) "default" _ rfl).1.2 hp

theorem attributeCost_invalid : ∃ price : RoutePrice,
    attributeCost (fun _ => some price) "default" { outputTokens := 1 } =
      .error (.validation "estimated_cost_usd") :=
  ⟨⟨5 / 2, 1 / 100000, 0, by decide +kernel⟩, by decide +kernel⟩

structure RateLimiter where
  requestsPerWindow : ℕ
  window : ℚ
  maxKeys : ℕ
  limit_pos : 1 ≤ requestsPerWindow
  window_pos : 0 < window

structure RateCall where
  tenantId : Uuid
  routeName : String
  now : ℚ

def RateCall.key (r : RateCall) : Uuid × String := (r.tenantId, r.routeName)

/-- What `acquire` returns. -/
inductive Acquired where
  | granted
  | delayed (seconds : ℚ)
  | capacity
  deriving DecidableEq

abbrev RateTable := List ((Uuid × String) × List ℚ)

def RateTable.timestamps (requests : RateTable) (key : Uuid × String) : List ℚ :=
  ((lookup Prod.fst key requests).map Prod.snd).getD []

variable (c : RateLimiter)

def RateLimiter.acquire (requests : RateTable) (r : RateCall) : Acquired × RateTable :=
  if lookup Prod.fst r.key requests = none ∧ c.maxKeys ≤ requests.length then (.capacity, requests)
  else
    let timestamps := (requests.timestamps r.key).dropWhile (· ≤ r.now - c.window)
    if c.requestsPerWindow ≤ timestamps.length then
      (.delayed (max 0 (timestamps.headD 0 + c.window - r.now)),
        upsert Prod.fst (r.key, timestamps) requests)
    else (.granted, upsert Prod.fst (r.key, timestamps ++ [r.now]) requests)

structure RateRun where
  requests : RateTable := []
  log : List (RateCall × Acquired) := []

def RateLimiter.step (s : RateRun) (r : RateCall) : RateRun :=
  ⟨(c.acquire s.requests r).2, s.log ++ [(r, (c.acquire s.requests r).1)]⟩

def RateLimiter.run (calls : List RateCall) : RateRun := calls.foldl c.step {}

def grantTimes (key : Uuid × String) (log : List (RateCall × Acquired)) : List ℚ :=
  (log.filter fun e => e.1.key = key ∧ e.2 = .granted).map (·.1.now)

variable {c} {key : Uuid × String} {log : List (RateCall × Acquired)} {r : RateCall}

theorem grantTimes_concat {answer : Acquired} : grantTimes key (log ++ [(r, answer)]) =
    grantTimes key log ++ if r.key = key ∧ answer = .granted then [r.now] else [] := by
  unfold grantTimes
  rw [filter_append, map_append]
  by_cases h : r.key = key ∧ answer = .granted <;> simp [h]

structure Windowed (window now : ℚ) (grants timestamps : List ℚ) : Prop where
  kept : ∃ dropped, grants = dropped ++ timestamps ∧ ∀ t ∈ dropped, t ≤ now - window
  sorted : timestamps.Pairwise (· ≤ ·)
  past : ∀ t ∈ timestamps, t ≤ now

theorem dropWhile_le_eq_filter {boundary : ℚ} {ts : List ℚ} (h : ts.Pairwise (· ≤ ·)) :
    ts.dropWhile (· ≤ boundary) = ts.filter (boundary < ·) := by
  induction ts with
  | nil => rfl
  | cons t ts ih =>
    obtain ⟨hle, hts⟩ := pairwise_cons.1 h
    by_cases ht : t ≤ boundary
    · simp [ht, ih hts]
    · have hall : ∀ t' ∈ t :: ts, boundary < t' := by
        intro t' ht'
        rcases mem_cons.1 ht' with rfl | ht'
        · exact not_le.1 ht
        · linarith [hle t' ht', not_le.1 ht]
      rw [filter_eq_self.2 (by simpa using hall)]
      simp [ht]

variable {window now now' : ℚ} {grants timestamps : List ℚ}

theorem Windowed.drop (h : Windowed window now grants timestamps) (hnow : now ≤ now') :
    Windowed window now' grants (timestamps.dropWhile (· ≤ now' - window)) ∧
    (timestamps.dropWhile (· ≤ now' - window)).length = grants.countP (now' - window < ·) := by
  obtain ⟨⟨dropped, rfl, hd⟩, hs, hpast⟩ := h
  have hold : ∀ t ∈ dropped, t ≤ now' - window := fun t ht => by linarith [hd t ht]
  refine ⟨⟨⟨dropped ++ timestamps.takeWhile (· ≤ now' - window), ?_, fun t ht => ?_⟩, ?_, ?_⟩, ?_⟩
  · rw [List.append_assoc, List.takeWhile_append_dropWhile]
  · rcases mem_append.1 ht with ht | ht
    · exact hold t ht
    · simpa using mem_takeWhile_imp ht
  · exact hs.sublist (dropWhile_sublist _)
  · intro t ht
    linarith [hpast t ((dropWhile_sublist _).subset ht)]
  · rw [dropWhile_le_eq_filter hs, countP_append,
      countP_eq_zero.2 (by simpa using hold), zero_add, countP_eq_length_filter]

theorem Windowed.push (h : Windowed window now grants timestamps) :
    Windowed window now (grants ++ [now]) (timestamps ++ [now]) := by
  obtain ⟨⟨dropped, rfl, hd⟩, hs, hpast⟩ := h
  refine ⟨⟨dropped, by simp, hd⟩, ?_, ?_⟩
  · exact pairwise_append.2 ⟨hs, pairwise_singleton .., by simpa using hpast⟩
  · simpa [or_imp, forall_and] using hpast

def Spaced (limit : ℕ) (window : ℚ) (grants : List ℚ) : Prop :=
  ∀ p : ℚ → Bool, (∀ s t, p s → p t → s - window < t) → grants.countP p ≤ limit

theorem Spaced.push {limit : ℕ} (h : Spaced limit window grants)
    (hroom : grants.countP (now - window < ·) < limit) : Spaced limit window (grants ++ [now]) := by
  intro p hp
  rw [countP_append, countP_singleton]
  split
  next hnow =>
    have hle : grants.countP p ≤ grants.countP (now - window < ·) :=
      countP_mono_left fun t _ ht => decide_eq_true (hp now t hnow ht)
    omega
  · exact h p hp

/-- What holds before a call at `now` or later. -/
structure RateInvariant (c : RateLimiter) (now : ℚ) (s : RateRun) : Prop where
  keyed : Unique fst s.requests
  used : ∀ row ∈ s.requests, row.1 ∈ s.log.map (·.1.key)
  tracks : ∀ key, Windowed c.window now (grantTimes key s.log) (s.requests.timestamps key)
  spaced : ∀ key, Spaced c.requestsPerWindow c.window (grantTimes key s.log)

theorem RateTable.timestamps_upsert (requests : RateTable) (key key' : Uuid × String)
    (ts : List ℚ) : RateTable.timestamps (upsert fst (key', ts) requests) key =
      if key' = key then ts else requests.timestamps key := by
  simp only [RateTable.timestamps, lookup_upsert]
  split <;> rfl

variable {s : RateRun}

theorem RateInvariant.acquire_cases (h : RateInvariant c now s) (hnow : now ≤ r.now) :
    c.acquire s.requests r = (.capacity, s.requests) ∨
    ∃ ts, Windowed c.window r.now (grantTimes r.key s.log) ts ∧
      ts.length = (grantTimes r.key s.log).countP (r.now - c.window < ·) ∧
      (c.requestsPerWindow ≤ ts.length ∧ c.acquire s.requests r =
        (.delayed (max 0 (ts.headD 0 + c.window - r.now)), upsert fst (r.key, ts) s.requests) ∨
      ts.length < c.requestsPerWindow ∧ c.acquire s.requests r =
        (.granted, upsert fst (r.key, ts ++ [r.now]) s.requests)) := by
  unfold RateLimiter.acquire
  split
  · exact .inl rfl
  · obtain ⟨ht, hl⟩ := (h.tracks r.key).drop hnow
    refine .inr ⟨_, ht, hl, ?_⟩
    dsimp only
    split
    next hfull => exact .inl ⟨hfull, rfl⟩
    next hroom => exact .inr ⟨not_le.1 hroom, rfl⟩

theorem Windowed.mono (h : Windowed window now grants timestamps) (hnow : now ≤ now') :
    Windowed window now' grants timestamps := by
  obtain ⟨⟨dropped, heq, hd⟩, hs, hpast⟩ := h
  exact ⟨⟨dropped, heq, fun t ht => by linarith [hd t ht]⟩, hs,
    fun t ht => (hpast t ht).trans hnow⟩

theorem Windowed.past_grants (h : Windowed window now grants timestamps) (hw : 0 < window) :
    ∀ t ∈ grants, t ≤ now := by
  obtain ⟨⟨dropped, rfl, hd⟩, -, hpast⟩ := h
  intro t ht
  rcases mem_append.1 ht with ht | ht
  · linarith [hd t ht]
  · exact hpast t ht

theorem RateInvariant.step (h : RateInvariant c now s) (hnow : now ≤ r.now) :
    RateInvariant c r.now (c.step s r) := by
  have hlater := fun key => (h.tracks key).mono hnow
  have hused : ∀ {answer : Acquired} {ts : List ℚ}, ∀ row ∈ upsert fst (r.key, ts) s.requests,
      row.1 ∈ (s.log ++ [(r, answer)]).map fun e => e.1.key := by
    intro answer ts row hrow
    rw [map_append, mem_append]
    rcases mem_of_mem_upsert hrow with rfl | hrow
    · exact .inr (mem_singleton.2 rfl)
    · exact .inl (h.used row hrow)
  unfold RateLimiter.step
  rcases h.acquire_cases hnow with hcap | ⟨ts, ht, hl, ⟨-, hd⟩ | ⟨hroom, hg⟩⟩
  · rw [hcap]
    refine ⟨h.keyed, fun row hrow => ?_, fun key => ?_, fun key => ?_⟩
    · rw [map_append]
      exact mem_append_left _ (h.used row hrow)
    · simpa [grantTimes_concat] using hlater key
    · simpa [grantTimes_concat] using h.spaced key
  · rw [hd]
    refine ⟨h.keyed.upsert _, hused, fun key => ?_, fun key => ?_⟩
    · rw [RateTable.timestamps_upsert]
      split
      next hkey => simpa [grantTimes_concat, ← hkey] using ht
      · simpa [grantTimes_concat] using hlater key
    · simpa [grantTimes_concat] using h.spaced key
  · rw [hg]
    refine ⟨h.keyed.upsert _, hused, fun key => ?_, fun key => ?_⟩
    · rw [RateTable.timestamps_upsert]
      split
      next hkey => simpa [grantTimes_concat, ← hkey] using ht.push
      next hkey => simpa [grantTimes_concat, hkey] using hlater key
    · rw [grantTimes_concat]
      split
      next hkey =>
        refine (h.spaced key).push ?_
        rw [← hkey.1, ← hl]
        exact hroom
      · simpa using h.spaced key

/-- **The invariant holds at every call**. -/
theorem RateLimiter.run_invariant {calls : List RateCall}
    (hclock : (calls ++ [r]).Pairwise (·.now ≤ ·.now)) :
    ∃ now ≤ r.now, RateInvariant c now (c.run calls) := by
  induction calls using reverseRecOn generalizing r with
  | nil =>
    exact ⟨r.now, le_rfl, unique_nil, nofun,
      fun key => ⟨⟨[], rfl, by simp⟩, .nil, by simp [run, RateTable.timestamps]⟩,
      fun key p hp => Nat.zero_le _⟩
  | append_singleton calls last ih =>
    obtain ⟨hb, -, hlast⟩ := pairwise_append.1 hclock
    obtain ⟨now, hnow, hinv⟩ := ih hb
    refine ⟨last.now, hlast last (by simp) r (by simp), ?_⟩
    rw [run, foldl_concat]
    exact hinv.step hnow

theorem RateInvariant.delayed (h : RateInvariant c now s) (hnow : now ≤ r.now) {seconds : ℚ}
    (hd : (c.acquire s.requests r).1 = .delayed seconds) :
    ∃ first ts, (c.acquire s.requests r).2 = upsert fst (r.key, first :: ts) s.requests ∧
      first ≤ r.now + seconds - c.window ∧ (first :: ts).length = c.requestsPerWindow ∧
      (grantTimes r.key s.log).countP (fun t => r.now - c.window < t ∧ t ≤ r.now) =
        c.requestsPerWindow := by
  have hpast : ∀ t ∈ grantTimes r.key s.log, t ≤ r.now := fun t ht =>
    ((h.tracks r.key).past_grants c.window_pos t ht).trans hnow
  have hsp := h.spaced r.key (fun t => r.now - c.window < t ∧ t ≤ r.now) fun s t hs ht => by
    simp only [Bool.decide_and, and_eq_true, decide_eq_true_eq] at hs ht
    linarith
  have hcount : (grantTimes r.key s.log).countP (r.now - c.window < ·) =
      (grantTimes r.key s.log).countP (fun t => r.now - c.window < t ∧ t ≤ r.now) :=
    countP_congr fun t ht => by simp [hpast t ht]
  rcases h.acquire_cases hnow with hcap | ⟨ts, htr, hl, ⟨hfull, heq⟩ | ⟨-, heq⟩⟩
  · rw [hcap] at hd
    cases hd
  · cases ts with
    | nil => exact absurd c.limit_pos (by simpa using hfull)
    | cons first ts =>
      rw [heq] at hd ⊢
      have hse : first + c.window - r.now ≤ seconds :=
        Acquired.delayed.inj hd ▸ le_max_right ..
      refine ⟨first, ts, rfl, by linarith, ?_, ?_⟩
      · omega
      · omega
  · rw [heq] at hd
    cases hd

theorem RateLimiter.acquire_queued {requests : RateTable} {first : ℚ} {ts : List ℚ}
    (hqueue : lookup fst r.key requests = some (r.key, first :: ts))
    (hfirst : first ≤ r.now - c.window) (hroom : ts.length < c.requestsPerWindow) :
    (c.acquire requests r).1 = .granted := by
  have hleft := (dropWhile_sublist (· ≤ r.now - c.window) (l := ts)).length_le
  rw [acquire, if_neg (by simp [hqueue])]
  simp only [RateTable.timestamps, hqueue, map_some, getD_some,
    dropWhile_cons_of_pos (p := (· ≤ r.now - c.window)) (decide_eq_true hfirst)]
  rw [if_neg (by omega)]

theorem RateLimiter.run_log (c : RateLimiter) (calls : List RateCall) :
    (c.run calls).log.map (·.1) = calls := by
  induction calls using reverseRecOn with
  | nil => rfl
  | append_singleton calls last ih => rw [run, foldl_concat, step, ← run, map_append, ih]; rfl

/-- A key is refused for want of room only when more keys are in use than the limiter may hold. -/
theorem RateInvariant.capacity (h : RateInvariant c now s)
    (hc : (c.acquire s.requests r).1 = .capacity) :
    c.maxKeys < (s.log.map (fun e => e.1.key) ++ [r.key]).toFinset.card := by
  have hfull : lookup fst r.key s.requests = none ∧ c.maxKeys ≤ s.requests.length := by
    by_contra hroom
    rw [RateLimiter.acquire, if_neg hroom] at hc
    dsimp only at hc
    split at hc <;> cases hc
  refine hfull.2.trans_lt (h.keyed.length_lt (fun row hrow => ?_) ?_ hfull.1)
  · exact mem_toFinset.2 (mem_append_left _ (h.used row hrow))
  · exact mem_toFinset.2 (mem_append_right _ (mem_singleton.2 rfl))

/-- **The sliding window.**  A request is refused when the window that ends at it is full, or when its
key is one more than the limiter may hold. -/
theorem RateLimiter.sliding_window (c : RateLimiter) (calls : List RateCall) (r : RateCall)
    (hclock : (calls ++ [r]).Pairwise (·.now ≤ ·.now)) :
    (∀ key start,
      (grantTimes key (c.run calls).log).countP (fun t => start ≤ t ∧ t < start + c.window) ≤
        c.requestsPerWindow ∧
      (grantTimes key (c.run calls).log).countP (fun t => start < t ∧ t ≤ start + c.window) ≤
        c.requestsPerWindow) ∧
    ((c.acquire (c.run calls).requests r).1 = .granted ∨
      (grantTimes r.key (c.run calls).log).countP
        (fun t => r.now - c.window < t ∧ t ≤ r.now) = c.requestsPerWindow ∨
      (c.acquire (c.run calls).requests r).1 = .capacity ∧
        c.maxKeys < ((calls ++ [r]).map RateCall.key).toFinset.card) ∧
    ∀ seconds, (c.acquire (c.run calls).requests r).1 = .delayed seconds →
      (grantTimes r.key (c.run calls).log).countP
        (fun t => r.now - c.window < t ∧ t ≤ r.now) = c.requestsPerWindow ∧
      (c.acquire (c.run (calls ++ [r])).requests { r with now := r.now + seconds }).1 =
        .granted := by
  obtain ⟨now, hnow, hinv⟩ := run_invariant (c := c) hclock
  refine ⟨fun key start => ⟨?_, ?_⟩, ?_, fun seconds hd => ?_⟩
  · refine hinv.spaced key _ fun s t hs ht => ?_
    simp only [Bool.decide_and, and_eq_true, decide_eq_true_eq] at hs ht
    linarith
  · refine hinv.spaced key _ fun s t hs ht => ?_
    simp only [Bool.decide_and, and_eq_true, decide_eq_true_eq] at hs ht
    linarith
  · cases ha : (c.acquire (c.run calls).requests r).1 with
    | granted => exact .inl rfl
    | delayed seconds =>
      obtain ⟨-, -, -, -, -, hfull⟩ := hinv.delayed hnow ha
      exact .inr (.inl hfull)
    | capacity =>
      refine .inr (.inr ⟨rfl, ?_⟩)
      have hkeys : (c.run calls).log.map (fun e => e.1.key) = calls.map RateCall.key := by
        conv_rhs => rw [← c.run_log calls, map_map]
        rfl
      rw [map_append, ← hkeys]
      exact hinv.capacity ha
  · obtain ⟨first, ts, htable, hfirst, hl, hfull⟩ := hinv.delayed hnow hd
    refine ⟨hfull, ?_⟩
    rw [run, List.foldl_concat, step, ← run, htable]
    refine acquire_queued (lookup_upsert_self (r.key, first :: ts) _) hfirst ?_
    rw [← hl]
    exact Nat.lt_succ_self _

theorem RateLimiter.sliding_window_third :
    let c : RateLimiter := ⟨2, 1, 10, by decide, by decide⟩
    let calls : List RateCall := [⟨1, "default", 0⟩, ⟨1, "default", 1 / 4⟩]
    let r : RateCall := ⟨1, "default", 3 / 4⟩
    (c.acquire (c.run calls).requests r).1 = .delayed (1 / 4) ∧
      (c.acquire (c.run (calls ++ [r])).requests ⟨1, "default", 3 / 4 + 1 / 4⟩).1 = .granted := by
  intro c calls r
  have hd : (c.acquire (c.run calls).requests r).1 = .delayed (1 / 4) := by decide +kernel
  have hclock : (calls ++ [r]).Pairwise (·.now ≤ ·.now) := by
    simp only [calls, r]
    norm_num
  exact ⟨hd, ((c.sliding_window calls r hclock).2.2 _ hd).2⟩

/-- A second key of a limiter for one key is refused, and its window is empty. -/
theorem RateLimiter.empty_window_refused : ¬ ∀ (c : RateLimiter) (calls : List RateCall)
    (r : RateCall), (calls ++ [r]).Pairwise (·.now ≤ ·.now) →
      (c.acquire (c.run calls).requests r).1 ≠ .granted →
        (grantTimes r.key (c.run calls).log).countP
          (fun t => r.now - c.window < t ∧ t ≤ r.now) = c.requestsPerWindow := by
  intro h
  have hempty := h ⟨1, 1, 1, by decide, by decide⟩ [⟨1, "default", 0⟩] ⟨2, "default", 0⟩ (by simp)
    (by decide +kernel)
  revert hempty
  decide +kernel

end AgentPlatform
