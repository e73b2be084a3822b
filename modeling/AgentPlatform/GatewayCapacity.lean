/-
**Gateway capacity: tenant slots, route slots and token windows.**

Main results:

* `capacity_accounting` — what every history of calls leaves accounted
-/

import AgentPlatform.DomainValues

namespace AgentPlatform

open List Function

structure CapacityConfig where
  maxGatewayRequests : Uuid → ℕ
  requestLimit : ℕ
  tokenLimit : ℕ
  tokenWindow : ℕ
  window_pos : 0 < tokenWindow

structure GatewayCapacityLease where
  id : Uuid
  tenantId : Uuid
  routeName : String
  requestId : String
  reservedTokens : ℕ
  acquiredAt : Timestamp
  expiresAt : Timestamp
  deriving DecidableEq

structure CapacityLeaseRow extends GatewayCapacityLease where
  windowStartedAt : Timestamp
  deriving DecidableEq

structure RouteCapacity where
  windowStartedAt : Timestamp
  accountedTokens : ℕ
  updatedAt : Timestamp

structure CapacityStore where
  leases : List CapacityLeaseRow := []
  routes : String → Option RouteCapacity := fun _ => none

inductive CapacityScope where
  | tenantGatewayRequests | providerRequests | providerTokens

inductive GatewayCapacityClaim where
  | lease (lease : GatewayCapacityLease)
  | rejection (scope : CapacityScope) (retryAfter : ℕ)

/-- The arguments of `acquire`. -/
structure CapacityRequest where
  id : Uuid
  tenantId : Uuid
  routeName : String
  requestId : String
  reservedTokens : ℕ
  leaseDuration : ℕ

def RouteCapacity.ahead (route : RouteCapacity) (now : Timestamp) : Bool :=
  decide (now < route.windowStartedAt) || decide (now < route.updatedAt)

def RouteCapacity.reset (cfg : CapacityConfig) (now : Timestamp) (route : RouteCapacity) :
    RouteCapacity :=
  if cfg.tokenWindow ≤ now - route.windowStartedAt then ⟨now, 0, now⟩ else route

/-- In milliseconds, of which the source takes at least one (`0.001` seconds). -/
def databaseRetryAfter (now : Timestamp) (leases : List CapacityLeaseRow) : ℕ :=
  max 1 ((leases.map (·.expiresAt)).min?.getD now - now)

namespace CapacityStore

variable (cfg : CapacityConfig) (s : CapacityStore) (now : Timestamp)

def route (routeName : String) : RouteCapacity := (s.routes routeName).getD ⟨now, 0, now⟩

def prepare (routeName : String) : CapacityStore :=
  { leases := s.leases.filter (now < ·.expiresAt)
    routes := Function.update s.routes routeName (some (s.route now routeName)) }

/-- `acquire` after the expired leases were deleted. -/
def grant (q : CapacityRequest) (route : RouteCapacity) :
    Except Failure (GatewayCapacityClaim × CapacityStore) :=
  match s.leases.find? fun l => l.tenantId = q.tenantId && l.requestId = q.requestId with
  | some row =>
    if row.routeName ≠ q.routeName ∨ row.reservedTokens ≠ q.reservedTokens then
      .error (.validation "gateway capacity request identity is already in use")
    else .ok (.lease row.toGatewayCapacityLease, s)
  | none =>
    let ofTenant := s.leases.filter (·.tenantId = q.tenantId)
    let ofRoute := s.leases.filter (·.routeName = q.routeName)
    let route := route.reset cfg now
    if cfg.maxGatewayRequests q.tenantId ≤ ofTenant.length then
      .ok (.rejection .tenantGatewayRequests (databaseRetryAfter now ofTenant), s)
    else if cfg.requestLimit ≤ ofRoute.length then
      .ok (.rejection .providerRequests (databaseRetryAfter now ofRoute), s)
    else if cfg.tokenLimit < route.accountedTokens + q.reservedTokens then
      .ok (.rejection .providerTokens (max 1 (cfg.tokenWindow - (now - route.windowStartedAt))),
        { s with routes := Function.update s.routes q.routeName (some route) })
    else if s.leases.any (·.id = q.id) then .error (.integrity "id")
    else
      let row : CapacityLeaseRow :=
        { q with
          windowStartedAt := route.windowStartedAt, acquiredAt := now
          expiresAt := now + q.leaseDuration }
      .ok (.lease row.toGatewayCapacityLease,
        { leases := s.leases ++ [row]
          routes := Function.update s.routes q.routeName (some
            ⟨route.windowStartedAt, route.accountedTokens + q.reservedTokens, now⟩) })

def acquire (q : CapacityRequest) : Except Failure (GatewayCapacityClaim × CapacityStore) :=
  let route := s.route now q.routeName
  if q.reservedTokens < 1 ∨ 1000000000 < q.reservedTokens then
    .error (.validation "reserved_tokens must be in [1, 1000000000]")
  else if route.ahead now then .error (.validation "capacity clock may not move backward")
  else (s.prepare now q.routeName).grant cfg now q route

def row? (lease : GatewayCapacityLease) : Option CapacityLeaseRow :=
  s.leases.find? (·.id = lease.id)

def release (lease : GatewayCapacityLease) (consumedTokens : ℕ) : Except Failure CapacityStore :=
  if 1000000000 < consumedTokens then
    .error (.validation "consumed_tokens must be in [0, 1000000000]")
  else
    match s.row? lease with
    | none => .ok s
    | some row =>
      if row.toGatewayCapacityLease ≠ lease then
        .error (.validation "gateway capacity lease does not match durable ownership")
      else
        match s.routes row.routeName with
        | none => .error (.validation "gateway provider capacity row disappeared")
        | some route =>
          if route.ahead now then .error (.validation "capacity clock may not move backward")
          else
            let route := route.reset cfg now
            let accounted :=
              if route.windowStartedAt = row.windowStartedAt then
                (max 0 ((route.accountedTokens : ℤ) - row.reservedTokens + consumedTokens)).toNat
              else route.accountedTokens
            .ok
              { leases := s.leases.filter (·.id ≠ row.id)
                routes := Function.update s.routes row.routeName (some
                  ⟨route.windowStartedAt, accounted, now⟩) }

def renew (lease : GatewayCapacityLease) (leaseDuration : ℕ) : Except Failure CapacityStore :=
  match s.row? lease with
  | some row =>
    if row.toGatewayCapacityLease ≠ lease ∨ row.expiresAt ≤ now then lost
    else
      .ok { s with
        leases := s.leases.map fun l =>
          if l.id = row.id then { l with expiresAt := now + leaseDuration } else l }
  | none => lost
where
  lost := domainError "gateway_capacity_lease_lost"
    "the gateway capacity lease is no longer owned" true

end CapacityStore

inductive CapacityOp where
  | acquire (request : CapacityRequest)
  | renew (lease : GatewayCapacityLease) (leaseDuration : ℕ)
  | release (lease : GatewayCapacityLease) (consumedTokens : ℕ)

def CapacityStore.commit (cfg : CapacityConfig) (s : CapacityStore) (now : Timestamp) :
    CapacityOp → Except Failure CapacityStore
  | .acquire request => (s.acquire cfg now request).map (·.2)
  | .renew lease leaseDuration => s.renew now lease leaseDuration
  | .release lease consumedTokens => s.release cfg now lease consumedTokens

def CapacityStore.apply (cfg : CapacityConfig) (s : CapacityStore) (call : Timestamp × CapacityOp) :
    CapacityStore :=
  (s.commit cfg call.1 call.2).toOption.getD s

def chargedTo (leases : List CapacityLeaseRow) (name : String) (window : Timestamp) : ℕ :=
  (leases.map fun l =>
    if l.routeName = name ∧ l.windowStartedAt = window then l.reservedTokens else 0).sum

structure CapacityStore.Accounted (cfg : CapacityConfig) (s : CapacityStore) : Prop where
  tenants : ∀ t, s.leases.countP (·.tenantId = t) ≤ cfg.maxGatewayRequests t
  slots : ∀ name, s.leases.countP (·.routeName = name) ≤ cfg.requestLimit
  window : ∀ l ∈ s.leases, ∃ r, s.routes l.routeName = some r ∧
    l.windowStartedAt ≤ r.windowStartedAt
  covered : ∀ name r, s.routes name = some r →
    chargedTo s.leases name r.windowStartedAt ≤ r.accountedTokens

def CapacityStore.GrowsWithin (cfg : CapacityConfig) (s s' : CapacityStore) : Prop :=
  ∀ name r', s'.routes name = some r' → r'.accountedTokens ≤ cfg.tokenLimit ∨
    ∃ r, s.routes name = some r ∧ r'.accountedTokens ≤ r.accountedTokens

section
variable {cfg : CapacityConfig} {s s' : CapacityStore} {leases : List CapacityLeaseRow}
  {row : CapacityLeaseRow} {name : String} {r q : RouteCapacity} {now w : Timestamp}

theorem chargedTo_mono {ls : List CapacityLeaseRow} (h : leases.Sublist ls) :
    chargedTo leases name w ≤ chargedTo ls name w :=
  (h.map _).sum_le_sum fun _ _ => Nat.zero_le _

theorem chargedTo_eq_zero (h : ∀ l ∈ leases, l.routeName = name → l.windowStartedAt ≠ w) :
    chargedTo leases name w = 0 := by
  refine sum_eq_zero fun n hn => ?_
  obtain ⟨l, hl, rfl⟩ := mem_map.1 hn
  exact if_neg fun hw => h l hl hw.1 hw.2

theorem chargedTo_filter (h : row ∈ leases) :
    chargedTo (leases.filter (·.id ≠ row.id)) row.routeName row.windowStartedAt +
      row.reservedTokens ≤ chargedTo leases row.routeName row.windowStartedAt := by
  have hg : leases.filter (·.id ≠ row.id) = (leases.erase row).filter (·.id ≠ row.id) := by
    rw [← erase_filter, erase_of_not_mem (by simp)]
  have hrow := sum_map_erase (fun l : CapacityLeaseRow => if l.routeName = row.routeName ∧
    l.windowStartedAt = row.windowStartedAt then l.reservedTokens else 0) h
  rw [if_pos ⟨rfl, rfl⟩, Nat.add_comm] at hrow
  rw [hg]
  exact (Nat.add_le_add_right (chargedTo_mono filter_sublist) _).trans hrow.le

theorem RouteCapacity.reset_le : (r.reset cfg now).accountedTokens ≤ r.accountedTokens := by
  unfold RouteCapacity.reset
  split
  · exact Nat.zero_le _
  · rfl

namespace CapacityStore

theorem Accounted.replace (h : s.Accounted cfg) (hsub : leases.Sublist s.leases)
    (hwin : ∀ l ∈ leases, l.routeName = name → l.windowStartedAt ≤ q.windowStartedAt)
    (hcov : chargedTo leases name q.windowStartedAt ≤ q.accountedTokens) :
    Accounted cfg ⟨leases, update s.routes name (some q)⟩ where
  tenants t := hsub.countP_le.trans (h.tenants t)
  slots n := hsub.countP_le.trans (h.slots n)
  window l hl := by
    by_cases hn : l.routeName = name
    · exact ⟨q, by simp [hn], hwin l hl hn⟩
    · simpa [hn] using h.window l (hsub.subset hl)
  covered n r hr := by
    by_cases hn : n = name
    · subst hn
      obtain rfl : q = r := by simpa using hr
      exact hcov
    · exact (chargedTo_mono hsub).trans (h.covered n r (by simpa [hn] using hr))

theorem Accounted.prepare (h : s.Accounted cfg) : (s.prepare now name).Accounted cfg := by
  refine h.replace filter_sublist (fun l hl hn => ?_) ?_
  · obtain ⟨r, hr, hle⟩ := h.window l (mem_filter.1 hl).1
    rwa [route, ← hn, hr]
  unfold route
  cases hr : s.routes name with
  | some r => exact (chargedTo_mono filter_sublist).trans (h.covered name r hr)
  | none =>
    refine (chargedTo_eq_zero fun l hl hn => ?_).trans_le (Nat.zero_le _)
    obtain ⟨r, hr', -⟩ := h.window l (mem_filter.1 hl).1
    rw [hn, hr] at hr'
    cases hr'

theorem Accounted.reset (h : s.Accounted cfg) (hr : s.routes name = some r) (now : Timestamp) :
    (∀ l ∈ s.leases, l.routeName = name →
      l.windowStartedAt ≤ (r.reset cfg now).windowStartedAt) ∧
    chargedTo s.leases name (r.reset cfg now).windowStartedAt ≤
      (r.reset cfg now).accountedTokens := by
  have hwin : ∀ l ∈ s.leases, l.routeName = name → l.windowStartedAt ≤ r.windowStartedAt := by
    intro l hl hn
    obtain ⟨r₀, hr₀, hle⟩ := h.window l hl
    rw [hn, hr, Option.some_inj] at hr₀
    rwa [hr₀]
  unfold RouteCapacity.reset
  split
  next hlo =>
    have hlt : r.windowStartedAt < now := Nat.lt_of_sub_pos (cfg.window_pos.trans_le hlo)
    exact ⟨fun l hl hn => (hwin l hl hn).trans hlt.le,
      (chargedTo_eq_zero fun l hl hn => ((hwin l hl hn).trans_lt hlt).ne).le⟩
  · exact ⟨hwin, h.covered name r hr⟩

theorem Accounted.insert (h : s.Accounted cfg) (hna : row.routeName = name)
    (hr : s.routes name = some r) (hwin : row.windowStartedAt = r.windowStartedAt)
    (hten : s.leases.countP (·.tenantId = row.tenantId) < cfg.maxGatewayRequests row.tenantId)
    (hslo : s.leases.countP (·.routeName = name) < cfg.requestLimit)
    (hcov : chargedTo s.leases name r.windowStartedAt + row.reservedTokens ≤ r.accountedTokens) :
    Accounted cfg { s with leases := s.leases ++ [row] } where
  tenants t := by
    by_cases ht : row.tenantId = t
    · subst ht
      simpa using Nat.succ_le_of_lt hten
    · simpa [ht] using h.tenants t
  slots n := by
    by_cases hn : name = n
    · subst hn
      simpa [hna] using Nat.succ_le_of_lt hslo
    · simpa [hna, hn] using h.slots n
  window l hl := by
    obtain hold | rfl := by simpa using hl
    · exact h.window l hold
    · exact ⟨r, hna ▸ hr, hwin.le⟩
  covered n r₀ hr₀ := by
    by_cases hn : name = n
    · subst hn
      obtain rfl : r = r₀ := Option.some_inj.1 (hr.symm.trans hr₀)
      simpa [chargedTo, hna, hwin] using hcov
    · simpa [chargedTo, hna, hn] using h.covered n r₀ hr₀

theorem GrowsWithin.update (hs : s'.routes = Function.update s.routes name (some q))
    (h : q.accountedTokens ≤ cfg.tokenLimit ∨
      ∃ r, s.routes name = some r ∧ q.accountedTokens ≤ r.accountedTokens) :
    s.GrowsWithin cfg s' := by
  intro n r₀ hr₀
  rw [hs] at hr₀
  by_cases hn : n = name
  · subst hn
    obtain rfl : q = r₀ := by simpa using hr₀
    exact h
  · exact .inr ⟨r₀, by simpa [hn] using hr₀, le_rfl⟩

theorem GrowsWithin.trans {t : CapacityStore} (h : s.GrowsWithin cfg t)
    (h' : t.GrowsWithin cfg s') : s.GrowsWithin cfg s' := by
  intro n r' hr'
  obtain hlim | ⟨q, hq, hle⟩ := h' n r' hr'
  · exact .inl hlim
  · exact (h n q hq).imp hle.trans fun ⟨r, hr, hle'⟩ => ⟨r, hr, hle.trans hle'⟩

theorem grant_inv {request : CapacityRequest} {c : GatewayCapacityClaim}
    (ho : s.grant cfg now request r = .ok (c, s')) : s' = s ∨ let q := r.reset cfg now
    s' = { s with routes := update s.routes request.routeName (some q) } ∨
    ∃ row : CapacityLeaseRow, row.routeName = request.routeName ∧
      row.windowStartedAt = q.windowStartedAt ∧
      s.leases.countP (·.tenantId = row.tenantId) < cfg.maxGatewayRequests row.tenantId ∧
      s.leases.countP (·.routeName = request.routeName) < cfg.requestLimit ∧
      q.accountedTokens + row.reservedTokens ≤ cfg.tokenLimit ∧
      s' = ⟨s.leases ++ [row], update s.routes request.routeName
        (some ⟨q.windowStartedAt, q.accountedTokens + row.reservedTokens, now⟩)⟩ := by
  simp only [CapacityStore.grant, ← countP_eq_length_filter] at ho
  grind

theorem Accounted.acquire {request : CapacityRequest} {c : GatewayCapacityClaim}
    (h : s.Accounted cfg) (ho : s.acquire cfg now request = .ok (c, s')) :
    s'.Accounted cfg ∧ s.GrowsWithin cfg s' ∧ ((∃ row ∈ s'.leases, row ∉ s.leases) →
      ∀ r', s'.routes request.routeName = some r' → r'.accountedTokens ≤ cfg.tokenLimit) := by
  have hgro : s.GrowsWithin cfg (s.prepare now request.routeName) := by
    refine .update rfl ?_
    cases hr : s.routes request.routeName with
    | none => exact .inl (by simp [route, hr])
    | some r => exact .inr ⟨r, rfl, by simp [route, hr]⟩
  have hpre : (s.prepare now request.routeName).Accounted cfg := h.prepare
  have hr : (s.prepare now request.routeName).routes request.routeName =
      some (s.route now request.routeName) := update_self ..
  have hadm : (s.prepare now request.routeName).grant cfg now request
      (s.route now request.routeName) = .ok (c, s') := by
    unfold CapacityStore.acquire at ho
    grind
  obtain ⟨hwin, hcov⟩ := hpre.reset hr now
  obtain rfl | rfl | ⟨row, hn, hw, hten, hslo, hlim, rfl⟩ := grant_inv hadm
  · exact ⟨hpre, hgro, fun ⟨row, hrow, hnew⟩ => absurd (mem_filter.1 hrow).1 hnew⟩
  · exact ⟨hpre.replace (List.Sublist.refl _) hwin hcov,
      hgro.trans (.update rfl (.inr ⟨_, hr, RouteCapacity.reset_le⟩)),
      fun ⟨row, hrow, hnew⟩ => absurd (mem_filter.1 hrow).1 hnew⟩
  · have hacc := hpre.replace (List.Sublist.refl _) hwin (q := ⟨_, _, now⟩)
      (hcov.trans (Nat.le_add_right _ row.reservedTokens))
    refine ⟨hacc.insert hn (update_self ..) hw hten hslo
      (Nat.add_le_add_right hcov _), hgro.trans (.update rfl (.inl hlim)), fun _ r' hr' => ?_⟩
    obtain rfl : _ = r' := by simpa using hr'
    exact hlim

theorem Accounted.release {lease : GatewayCapacityLease} {consumedTokens : ℕ}
    (h : s.Accounted cfg) (ho : s.release cfg now lease consumedTokens = .ok s') :
    s'.Accounted cfg := by
  have hinv : s' = s ∨ ∃ row r, s.row? lease = some row ∧ s.routes row.routeName = some r ∧
      let q := r.reset cfg now
      s' = ⟨s.leases.filter (·.id ≠ row.id), update s.routes row.routeName (some
        ⟨q.windowStartedAt, if q.windowStartedAt = row.windowStartedAt then
          (max 0 ((q.accountedTokens : ℤ) - row.reservedTokens + consumedTokens)).toNat
          else q.accountedTokens, now⟩)⟩ := by
    unfold CapacityStore.release at ho
    grind
  obtain rfl | ⟨row, r, hrow, hr, rfl⟩ := hinv
  · exact h
  obtain ⟨hwin, hcov⟩ := h.reset hr now
  refine h.replace filter_sublist (fun l hl => hwin l (mem_filter.1 hl).1) ?_
  dsimp only
  split
  next heq =>
    have hre := chargedTo_filter (mem_of_find?_eq_some hrow)
    rw [heq] at hcov ⊢
    omega
  · exact (chargedTo_mono filter_sublist).trans hcov

theorem Accounted.renew {lease : GatewayCapacityLease} {leaseDuration : ℕ}
    (h : s.Accounted cfg) (ho : s.renew now lease leaseDuration = .ok s') : s'.Accounted cfg := by
  unfold CapacityStore.renew at ho
  split at ho
  next row hrow =>
    split at ho
    · cases ho
    obtain rfl := Except.ok.inj ho
    have hs : ∀ l : CapacityLeaseRow,
        let l' := if l.id = row.id then { l with expiresAt := now + leaseDuration } else l
        l'.tenantId = l.tenantId ∧ l'.routeName = l.routeName ∧
          l'.windowStartedAt = l.windowStartedAt ∧ l'.reservedTokens = l.reservedTokens := by
      intro l
      dsimp only
      split <;> exact ⟨rfl, rfl, rfl, rfl⟩
    constructor
    · simpa [countP_map, comp_def, hs] using h.tenants
    · simpa [countP_map, comp_def, hs] using h.slots
    · simpa [hs] using h.window
    · simpa [chargedTo, comp_def, hs] using h.covered
  · cases ho

theorem Accounted.apply (h : s.Accounted cfg) (call : Timestamp × CapacityOp) :
    (s.apply cfg call).Accounted cfg := by
  obtain ⟨now, op⟩ := call
  unfold CapacityStore.apply
  cases ho : s.commit cfg now op with
  | error e => exact h
  | ok s' =>
    cases op with
    | acquire request =>
      obtain ⟨p, hp, rfl⟩ := except_map_ok ho
      exact (h.acquire hp).1
    | renew lease leaseDuration => exact h.renew ho
    | release lease consumedTokens => exact h.release ho

end CapacityStore
end

/-- **Gateway capacity accounting.**  No acquire raises the accounted tokens of a route above the
limit, and one that inserts a lease leaves those of its route within the limit. -/
theorem capacity_accounting (cfg : CapacityConfig) (calls : List (Timestamp × CapacityOp)) :
    let s := calls.foldl (CapacityStore.apply cfg) {}
    (∀ t, s.leases.countP (·.tenantId = t) ≤ cfg.maxGatewayRequests t) ∧
    (∀ name, s.leases.countP (·.routeName = name) ≤ cfg.requestLimit) ∧
    (∀ name r, s.routes name = some r →
      chargedTo s.leases name r.windowStartedAt ≤ r.accountedTokens) ∧
    (∀ now lease row r, ∀ consumedTokens : ℕ, s.row? lease = some row →
      s.routes row.routeName = some r →
      (r.reset cfg now).windowStartedAt = row.windowStartedAt →
      0 ≤ ((r.reset cfg now).accountedTokens : ℤ) - row.reservedTokens + consumedTokens) ∧
    ∀ now request c s', s.acquire cfg now request = .ok (c, s') → s.GrowsWithin cfg s' ∧
      ((∃ row ∈ s'.leases, row ∉ s.leases) → ∀ r', s'.routes request.routeName = some r' →
        r'.accountedTokens ≤ cfg.tokenLimit) := by
  intro s
  have h : s.Accounted cfg :=
    List.foldlRecOn calls _ (⟨by simp, by simp, by simp, by simp⟩ : CapacityStore.Accounted cfg {})
      fun _ hs call _ => hs.apply call
  refine ⟨h.tenants, h.slots, h.covered, ?_, fun _ _ _ _ ho => (h.acquire ho).2⟩
  intro now lease row r consumedTokens hrow hr heq
  obtain ⟨-, hcov⟩ := h.reset hr now
  have hre := chargedTo_filter (List.mem_of_find?_eq_some hrow)
  rw [heq] at hcov
  omega

end AgentPlatform
