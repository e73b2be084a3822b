/-
**Worker slots and workspace leases.**
-/

import AgentPlatform.QueueReleases

namespace AgentPlatform

open Fleet FleetOp KeyedTable

open RowLocking

structure Fleet.SlotsFit (f : Fleet) : Prop where
  keys : KeyedTable.Unique WorkerRecord.key f.workers
  fit : ∀ id w, f.worker? id = some w → w.availableSlots + f.activeWorkerLeases id ≤ w.totalSlots
  idle : ∀ id, f.worker? id = none → f.activeWorkerLeases id = 0

namespace Fleet.SlotsFit

variable {f f' : Fleet} {op : FleetOp} {row : WorkerRecord}

theorem of_le (h : f.SlotsFit) (hw : f'.workers = f.workers)
    (ha : ∀ id, f'.activeWorkerLeases id ≤ f.activeWorkerLeases id) : f'.SlotsFit where
  keys := hw ▸ h.keys
  fit id w hid := by
    have hfit := h.fit id w (by rwa [worker?, hw] at hid)
    have := ha id
    omega
  idle id hid := by
    have hidle := h.idle id (by rwa [worker?, hw] at hid)
    have := ha id
    omega

theorem set (h : f.SlotsFit) (hw : f'.workers = (f.setWorker row).workers)
    (hrow : row.availableSlots + f'.activeWorkerLeases row.workerId ≤ row.totalSlots)
    (ha : ∀ id, id ≠ row.workerId → f'.activeWorkerLeases id ≤ f.activeWorkerLeases id) :
    f'.SlotsFit := by
  have hlk : ∀ id, f'.worker? id = if id = row.workerId then some row else f.worker? id := by
    intro id
    rw [worker?, hw]
    split
    next heq =>
      rw [heq]
      exact lookup_upsert_self row f.workers
    next hne => exact lookup_upsert_of_ne (Ne.symm hne) f.workers
  refine ⟨hw ▸ h.keys.upsert row, fun id w hid => ?_, fun id hid => ?_⟩
  · rw [hlk] at hid
    split at hid
    next heq =>
      cases hid
      rw [heq]
      exact hrow
    next hne =>
      have := ha id hne
      have := h.fit id w hid
      omega
  · rw [hlk] at hid
    split at hid
    · cases hid
    next hne =>
      have := ha id hne
      have := h.idle id hid
      omega

end Fleet.SlotsFit

variable {f f' : Fleet} {op : FleetOp}

theorem Fleet.active_setRun {r r' : FleetRun} (found : f.Stores r) (same : r'.key = r.key)
    (id : String) : (f.setRun r').activeWorkerLeases id +
      (if r.store.lease.any (·.workerId = id) then 1 else 0) =
      f.activeWorkerLeases id + if r'.store.lease.any (·.workerId = id) then 1 else 0 := by
  have hl : lookup FleetRun.key r'.key f.runs = some r := by
    rw [same]
    exact found
  exact countP_upsert_of_lookup hl

theorem Fleet.Step.slotsFit (h : Fleet.Step op f f') (hf : f.SlotsFit)
    (hop : ∀ w, op = .registerWorker w → w.availableSlots ≤ w.totalSlots) : f'.SlotsFit := by
  cases h with
  | submitted =>
    exact hf.of_le rfl fun id => countP_upsert_le _ _ _
  | @worker row slots =>
    refine hf.set rfl ?_ fun id _ => le_rfl
    change row.availableSlots + f.activeWorkerLeases row.workerId ≤ row.totalSlots
    obtain hle | ⟨hn, he⟩ | ⟨old, ho, ha, ht⟩ := slots
    · exact hle
    · rw [hf.idle _ hn]
      exact hop row he
    · rw [ha, ht]
      exact hf.fit _ old ho
  | @claimed w _ _ _ _ _ _ worker r s _ registered free found same unleased leased =>
    obtain rfl : worker.workerId = w := (lookup_some registered).2
    have hadd := fun id => active_setRun (stores_of_run? found) same id
    simp only [unleased, leased, claimedLease, Option.any_none, any_some,
      decide_eq_true_eq, false_eq_true, if_false] at hadd
    have hfit := hf.fit _ worker registered
    refine hf.set rfl ?_ fun id hne => ?_
    · have := hadd worker.workerId
      rw [if_pos rfl] at this
      change worker.availableSlots - 1 + (f.setRun _).activeWorkerLeases worker.workerId ≤
        worker.totalSlots
      omega
    · have := hadd id
      rw [if_neg (Ne.symm hne)] at this
      exact this.le
  | wrote found same kept =>
    refine hf.of_le rfl fun id => ?_
    have hadd := active_setRun found same id
    rw [kept] at hadd
    omega
  | renewed _ found same held _ kept =>
    refine hf.of_le rfl fun id => ?_
    have hadd := active_setRun (stores_of_run? found) same id
    rw [kept, held] at hadd
    simp only [any_some] at hadd
    omega
  | @released r r' row found same held gone =>
    have hadd := fun id => active_setRun found same id
    simp only [held, gone, Option.any_none, any_some, decide_eq_true_eq,
      false_eq_true, if_false] at hadd
    have hrow := hadd row.workerId
    rw [if_pos rfl] at hrow
    unfold returnWorkerSlot
    split
    · refine hf.of_le rfl fun id => ?_
      have := hadd id
      change (f.setRun r').activeWorkerLeases id ≤ _
      omega
    next w hw =>
      obtain hid : w.workerId = row.workerId := (lookup_some hw).2
      have hfit := hf.fit _ w hw
      refine hf.set rfl ?_ fun id hne => ?_
      · change min w.totalSlots (w.availableSlots + 1) +
          (f.setRun r').activeWorkerLeases w.workerId ≤ w.totalSlots
        rw [hid]
        omega
      · have := hadd id
        change (f.setRun r').activeWorkerLeases id ≤ _
        omega
  | owned => exact hf.of_le rfl fun id => le_rfl

inductive DatabaseOp where
  | statement (op : Op QueueCall)
  | transaction (op : FleetOp)

def QueueDatabase.step (d : QueueDatabase) : DatabaseOp → QueueDatabase
  | .statement op => d.apply op
  | .transaction op => { d with tables := { d.tables with fleet := d.tables.fleet.apply op } }

theorem QueueTxn.slotsFit_committed {t t' : QueueTables} {locked : QueueRow → Bool} {p : QueueTxn}
    (hf : t.fleet.SlotsFit) (h : p.execute t locked = .committed t') : t'.fleet.SlotsFit := by
  cases p with
  | claim call st =>
    have hv : (st.view t).fleet.SlotsFit := hf.of_le rfl fun _ => le_rfl
    obtain rfl | rfl | ⟨c, lease, f, -, -, hc, rfl⟩ :=
      ClaimState.committed_inv (outcome_map_committed h)
    · exact hf
    · exact hv
    · have hp : (st.view t).fleet.perform (.claim call.workerId c.tenantId c.runId call.token
          call.workspaceToken call.occurredAt call.expiresAt) = .ok f := by
        simp [perform, hc, Except.map]
      exact perform_induction hp hv fun hs ha => hs.slotsFit ha (by simp)
  | create call =>
    obtain rfl | rfl | ⟨-, _, rfl⟩ := CreateState.committed_inv (outcome_map_committed h)
    · exact hf
    · exact hf
    · refine hf.of_le rfl fun id => ?_
      have hl : call.store.lease = none := by
        unfold CreateCall.store
        split <;> rfl
      simp [activeWorkerLeases, countP_append, hl]
  | finish call =>
    obtain ⟨-, _, f, hfi, rfl⟩ := FinishState.committed_inv (outcome_map_committed h)
    have hp : t.fleet.perform (.finish call.lease call.result call.occurredAt) = .ok f := by
      simp [perform, hfi, Except.map]
    exact perform_induction hp hf fun hs ha => hs.slotsFit ha (by simp)
  | recoverExpired call st =>
    obtain ⟨-, f, hrec, rfl⟩ := RecoverState.committed_inv (outcome_map_committed h)
    have hp : t.fleet.perform (.recoverExpired call.occurredAt (st.retries ++ st.leases)) = .ok f :=
      hrec
    exact perform_induction hp hf fun hs ha => hs.slotsFit ha (by simp)

/-- **Worker slots are accounted for.** -/
theorem worker_slots_fit (ops : List DatabaseOp)
    (hops : ∀ w, DatabaseOp.transaction (.registerWorker w) ∈ ops → w.availableSlots ≤ w.totalSlots) :
    let fleet := (ops.foldl QueueDatabase.step { tables := {} }).tables.fleet
    ∀ w ∈ fleet.workers, 0 ≤ w.availableSlots ∧
      w.availableSlots + fleet.activeWorkerLeases w.workerId ≤ w.totalSlots := by
  have hf : (ops.foldl QueueDatabase.step { tables := {} }).tables.fleet.SlotsFit := by
    refine List.foldlRecOn (motive := fun d : QueueDatabase => d.tables.fleet.SlotsFit) ops _ ?_
      fun d hd op hop => ?_
    · exact ⟨KeyedTable.unique_nil, nofun, fun _ _ => rfl⟩
    · cases op with
      | statement op =>
        exact Database.tables_apply (I := fun t : QueueTables => t.fleet.SlotsFit) hd op
          fun h => QueueTxn.slotsFit_committed hd h
      | transaction op =>
        refine Fleet.apply_induction (P := Fleet.SlotsFit) hd fun hs ha => hs.slotsFit ha ?_
        rintro w rfl
        exact hops w hop
  intro fleet w hw
  exact ⟨Nat.zero_le _, hf.fit _ w ((hf.keys.lookup_eq_some_iff).2 ⟨hw, rfl⟩)⟩

theorem worker_slots_fit_claimed : (Fleet.after zombieClaim).workers.length = 1 ∧
    ∀ w ∈ (Fleet.after zombieClaim).workers,
      w.availableSlots + (Fleet.after zombieClaim).activeWorkerLeases w.workerId ≤ w.totalSlots := by
  have hreg : ∀ w, DatabaseOp.transaction (.registerWorker w) ∈
      zombieClaim.map DatabaseOp.transaction → w.availableSlots ≤ w.totalSlots := by
    simp [zombieClaim]
  exact ⟨by decide, fun w hw => (worker_slots_fit (zombieClaim.map .transaction) hreg w hw).2⟩

def FleetOp.reading : FleetOp → Option ((String × Uuid) × Timestamp)
  | .claim w _ runId _ _ at' _ => some ((w, runId), at')
  | .start l at' | .heartbeat l at' _ | .finish l _ at' | .acquire l _ at' _ =>
    some ((l.workerId, l.runId), at')
  | .heartbeatWorkspace l at' _ => some ((l.workerId, l.runId), at')
  | _ => none

def FleetOp.Lasts (d : ℕ) : FleetOp → Prop
  | .claim _ _ _ _ _ at' ex | .heartbeat _ at' ex | .acquire _ _ at' ex
  | .heartbeatWorkspace _ at' ex => ex = at' + d
  | _ => True

structure Fleet.Timed (d : ℕ) (past : List FleetOp) (f : Fleet) : Prop where
  bound : ∀ w ∈ f.workspaces, f.Bound w
  read : ∀ r ∈ f.runs, ∀ row ∈ r.store.lease, ∃ op ∈ past, ∃ x,
    op.reading = some ((row.workerId, r.store.run.id), x) ∧ row.expiresAt = x + d

namespace Fleet

variable {d : ℕ} {past : List FleetOp} {r r' : FleetRun} {w : WorkspaceLeaseRecord}

theorem Bound.setRun (h : f.Bound w) (found : f.Stores r) (same : r'.key = r.key)
    (hl : ∀ o ∈ w.owner, ∀ row, r.store.lease = some row → row.leaseToken = o.runLeaseToken →
      ∃ row', r'.store.lease = some row' ∧ row'.leaseToken = row.leaseToken ∧
        row'.workerId = row.workerId ∧ row.expiresAt ≤ row'.expiresAt) :
    (f.setRun r').Bound w := by
  intro o ho
  obtain ⟨q, row, hq, hrow, ht, hw, hex⟩ := h o ho
  by_cases hk : (w.tenantId, o.runId) = r'.key
  · have hrq : r = q := by
      rw [run?, hk, same, found] at hq
      exact some_injective _ hq
    subst hrq
    obtain ⟨row', hrow', ht', hw', hex'⟩ := hl o ho row hrow ht
    exact ⟨r', row', (f.run?_setRun r' (_, _)).trans (if_pos hk), hrow', ht'.trans ht, hw'.trans hw,
      hex.trans hex'⟩
  · exact ⟨q, row, (f.run?_setRun r' (_, _)).trans ((if_neg hk).trans hq), hrow, ht, hw, hex⟩

theorem Timed.setRun (h : f.Timed d past) (hl : ∀ w, f.Bound w → (f.setRun r').Bound w)
    (hread : ∀ row ∈ r'.store.lease, ∃ op ∈ past, ∃ x,
      op.reading = some ((row.workerId, r'.store.run.id), x) ∧ row.expiresAt = x + d) :
    (f.setRun r').Timed d past := by
  refine ⟨fun w hw => hl w (h.bound w hw), fun q hq => ?_⟩
  rcases mem_of_mem_upsert hq with rfl | hq
  · exact hread
  · exact h.read q hq

theorem Timed.setWorkspace (h : f.Timed d past) (hw : f.Bound w) :
    (f.setWorkspace w).Timed d past := by
  refine ⟨fun v hv => ?_, h.read⟩
  rcases mem_of_mem_upsert hv with rfl | hv
  · exact hw
  · exact h.bound v hv

/-- **A step keeps owners bound to run leases that last as long**. -/
theorem Step.timed (h : Fleet.Step op f f') (hf : f.Timed d past) (hop : op ∈ past)
    (hd : op.Lasts d)
    (hclock : ∀ p ∈ past, ∀ k x y, p.reading = some (k, x) → op.reading = some (k, y) → x ≤ y) :
    f'.Timed d past := by
  cases h with
  | @submitted x new =>
    refine ⟨fun w hw o ho => ?_, fun q hq => ?_⟩
    · obtain ⟨r, row, hr, hrest⟩ := hf.bound w hw o ho
      have hne : (w.tenantId, o.runId) ≠ ({ store := submit x } : FleetRun).key := by
        intro hk
        refine new r (mem_of_run? hr) ?_
        have := (run?_key hr).trans hk
        exact (Prod.ext_iff.1 this).2
      exact ⟨r, row, (f.run?_setRun _ (_, _)).trans ((if_neg hne).trans hr), hrest⟩
    · rcases mem_of_mem_upsert hq with rfl | hq
      · intro _ h
        cases h
      · exact hf.read q hq
  | worker => exact ⟨hf.bound, hf.read⟩
  | @claimed w tenantId runId t wsToken at' ex worker r s call _ _ found same unleased leased =>
    subst call
    obtain rfl : ex = at' + d := hd
    have hid : s.run.id = runId := (Prod.ext_iff.1 (same.trans (run?_key found))).2
    have hset : (f.setRun { r with store := s }).Timed d past := by
      refine hf.setRun (fun v hv => ?_) fun row hrow => ?_
      · refine hv.setRun (stores_of_run? found) same fun o _ row hrow => ?_
        rw [unleased] at hrow
        cases hrow
      · obtain rfl := some_injective _ (leased.symm.trans hrow)
        exact ⟨_, hop, at', by simp [reading, claimedLease, hid], rfl⟩
    have hws := hset.setWorkspace (w := (f.workspaceRow tenantId r.store.run.workspaceId).takenBy
      { runId := runId, workerId := w, runLeaseToken := t, leaseToken := wsToken
        acquiredAt := at', expiresAt := at' + d }) ?_
    · exact ⟨hws.bound, hws.read⟩
    intro o ho
    cases ho
    refine ⟨{ r with store := s }, claimedLease r.store.run w t at' (at' + d), ?_, leased, rfl, rfl,
      le_rfl⟩
    have hrow := (Prod.ext_iff.1 (f.workspaceRow_key tenantId r.store.run.workspaceId)).1
    refine (f.run?_setRun _ (_, _)).trans (if_pos ?_)
    rw [same, run?_key found]
    exact congrArg (·, runId) hrow
  | @wrote r r' found same kept =>
    refine hf.setRun (fun v hv => ?_) fun row hrow => ?_
    · exact hv.setRun found same fun o _ row hrow _ => ⟨row, kept ▸ hrow, rfl, rfl, le_rfl⟩
    · have hid : r'.store.run.id = r.store.run.id := (Prod.ext_iff.1 same).2
      rw [kept] at hrow
      rw [hid]
      exact hf.read _ (lookup_some found).1 row hrow
  | @renewed l at' ex r r' row call found same held owner kept =>
    subst call
    obtain rfl : ex = at' + d := hd
    have hid : r.store.run.id = l.runId := (Prod.ext_iff.1 (run?_key found)).2
    have hid' : r'.store.run.id = l.runId := (Prod.ext_iff.1 same).2.trans hid
    refine hf.setRun (fun v hv => ?_) fun row' hrow' => ?_
    · refine hv.setRun (stores_of_run? found) same fun o _ old hold _ => ?_
      obtain rfl := some_injective _ (held.symm.trans hold)
      obtain ⟨p, hp, x, hx, hex⟩ := hf.read r (mem_of_run? found) row held
      have hle : x ≤ at' := by
        refine hclock p hp _ x at' hx ?_
        simp [reading, owner, hid]
      exact ⟨_, kept, rfl, rfl, hex.trans_le (Nat.add_le_add_right hle d)⟩
    · obtain rfl := some_injective _ (kept.symm.trans hrow')
      exact ⟨_, hop, at', by simp [reading, owner, hid'], rfl⟩
  | @released r r' row found same held gone =>
    have hb : ((f.setRun r').releaseWorkspaceForRun row.leaseToken).Timed d past := by
      refine ⟨fun w hw => ?_, fun q hq => ?_⟩
      · obtain ⟨v, hv, rfl⟩ := List.mem_map.1 hw
        split
        · intro _ h
          cases h
        next hne =>
          refine (hf.bound v hv).setRun found same fun o ho old hold ht => ?_
          obtain rfl := some_injective _ (held.symm.trans hold)
          rw [Option.mem_def.1 ho] at hne
          exact absurd (by simp [ht]) hne
      · rcases mem_of_mem_upsert hq with rfl | hq
        · rw [gone]
          intro _ h
          cases h
        · exact hf.read q hq
    unfold returnWorkerSlot
    split <;> exact ⟨hb.bound, hb.read⟩
  | owned bound => exact hf.setWorkspace bound

end Fleet

/-- **A workspace lease never outlives its run lease.** -/
theorem workspace_lease_bound (d : ℕ) (ops : List FleetOp) (hd : ∀ op ∈ ops, op.Lasts d)
    (hclock : ops.Pairwise fun p q => ∀ k x y, p.reading = some (k, x) →
      q.reading = some (k, y) → x ≤ y) :
    ∀ w ∈ (Fleet.after ops).workspaces, ∀ o ∈ w.owner, ∃ r row,
      (Fleet.after ops).run? w.tenantId o.runId = some r ∧ r.store.lease = some row ∧
        row.leaseToken = o.runLeaseToken ∧ row.workerId = o.workerId ∧
        o.expiresAt ≤ row.expiresAt := by
  suffices h : (Fleet.after ops).Timed d ops from fun w hw o ho => h.bound w hw o ho
  induction ops using List.reverseRecOn with
  | nil => exact ⟨List.forall_mem_nil _, List.forall_mem_nil _⟩
  | append_singleton ops op ih =>
    rw [List.pairwise_append] at hclock
    obtain ⟨hbefore, -, hlast⟩ := hclock
    have hf := ih (fun p hp => hd p (List.mem_append_left _ hp)) hbefore
    have hop : op ∈ ops ++ [op] := by simp
    rw [Fleet.after_append]
    refine Fleet.apply_induction (P := Fleet.Timed d (ops ++ [op])) ?_ fun hs ha =>
      hs.timed ha hop (hd op hop) fun p hp k x y hx hy => ?_
    · refine ⟨hf.bound, fun r hr row hrow => ?_⟩
      obtain ⟨p, hp, hrest⟩ := hf.read r hr row hrow
      exact ⟨p, List.mem_append_left _ hp, hrest⟩
    · rcases List.mem_append.1 hp with hp | hp
      · exact hlast p hp op (by simp) k x y hx hy
      · obtain rfl := List.mem_singleton.1 hp
        rw [hx] at hy
        cases hy
        exact le_rfl

theorem workspace_lease_bound_heartbeat :
    (Fleet.after (zombieClaim ++ [.heartbeat zombieLease 15 25])).workspaces.length = 1 ∧
    ∀ w ∈ (Fleet.after (zombieClaim ++ [.heartbeat zombieLease 15 25])).workspaces, ∀ o ∈ w.owner,
      ∃ r row, (Fleet.after (zombieClaim ++ [.heartbeat zombieLease 15 25])).run? w.tenantId
          o.runId = some r ∧ r.store.lease = some row ∧ row.leaseToken = o.runLeaseToken ∧
        row.workerId = o.workerId ∧ o.expiresAt ≤ row.expiresAt := by
  refine ⟨by decide, workspace_lease_bound 10 _ ?_ ?_⟩
  · simp [zombieClaim, FleetOp.Lasts]
  · simp only [zombieClaim, zombieLease, FleetOp.reading, List.cons_append, List.nil_append,
      List.pairwise_cons, List.mem_cons, forall_eq_or_imp, reduceCtorEq, false_implies,
      implies_true, List.not_mem_nil, List.Pairwise.nil, and_true, true_and, Option.some.injEq,
      Prod.mk.injEq]
    rintro _ x y ⟨-, rfl⟩ ⟨-, rfl⟩
    decide

end AgentPlatform
