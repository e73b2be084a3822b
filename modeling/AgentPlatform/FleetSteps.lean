/-
**What a transaction of the fleet changes.**
-/

import AgentPlatform.Fleet
import AgentPlatform.QueueInvariant

namespace AgentPlatform

open FencedWrite Fleet KeyedTable RunStore WorkspaceLeaseRecord

def Fleet.HasLease (f : Fleet) (token : Uuid) : Prop :=
  ∃ r ∈ f.runs, r.store.lease.any (·.leaseToken = token) = true

instance (f : Fleet) (token : Uuid) : Decidable (f.HasLease token) :=
  inferInstanceAs (Decidable (∃ r ∈ f.runs, _))

def FleetOp.minted : FleetOp → List Uuid
  | .claim _ _ _ token workspaceToken _ _ => [token, workspaceToken]
  | .acquire _ token _ _ => [token]
  | _ => []

variable {f f' : Fleet} {tenantId : Uuid} {at' : Timestamp}

variable {runId : Uuid} {lease : RunLease} {s s' : RunStore} {row : WorkerRecord}

theorem Fleet.mem_of_run? {r : FleetRun} (h : f.run? tenantId runId = some r) : r ∈ f.runs :=
  (lookup_some h).1

theorem Fleet.onRun_ok {α : Type} {a : α} {missing : Except Failure (α × Fleet)}
    {g : RunStore → Except Failure (α × RunStore)}
    (h : f.onRun tenantId runId missing g = .ok (a, f')) :
    missing = .ok (a, f') ∧ f.run? tenantId runId = none ∨
      ∃ r s, f.run? tenantId runId = some r ∧ g r.store = .ok (a, s) ∧
        f' = f.setRun { r with store := s } := by
  unfold onRun at h
  cases hr : f.run? tenantId runId with
  | none =>
    rw [hr] at h
    exact .inl ⟨h, rfl⟩
  | some r =>
    rw [hr] at h
    dsimp only at h
    cases hg : g r.store with
    | error => rw [hg] at h; cases h
    | ok p =>
      rw [hg] at h
      cases h
      exact .inr ⟨r, p.2, rfl, hg, rfl⟩

def StoreOp.keepsLease : StoreOp → Bool
  | .claim .. | .heartbeat .. | .finish .. | .recoverExpired .. => false
  | _ => true

theorem QueueStep.lease_eq {r r' : Run} {l l' : Option RunLeaseRecord} {op : StoreOp}
    (h : QueueStep r l op r' l') (hop : op.keepsLease) : l' = l := by
  cases h with
  | claimed | renewed | finished | cancelledExpired | requeuedExpired | discarded => cases hop
  | kept | started | retried | cancelled | cancelling | woken | rewound => rfl

def FencedWrite.storeOp (w : FencedWrite) (lease : RunLease) (now : Timestamp) : StoreOp :=
  match w with
  | .saveToolCall c => .saveToolCall lease now c
  | .createApproval a => .createApproval lease now a
  | .createCheckpoint c => .createCheckpoint lease now c
  | .completeCheckpoint id snapshot revision => .completeCheckpoint lease now id snapshot revision
  | .appendTranscript codec i messages at' => .appendTranscript codec lease now i messages at'

theorem FencedWrite.queueStep {w : FencedWrite} {now : Timestamp} {u : Unit}
    (h : w.transaction lease now s = .ok (u, s')) :
    QueueStep s.run s.lease (w.storeOp lease now) s'.run s'.lease := by
  have ha : s.apply (w.storeOp lease now) = s' := by
    cases w with
    | saveToolCall | createApproval | createCheckpoint =>
      obtain ⟨_, hp, he⟩ := except_map_ok h
      simp only [storeOp, RunStore.apply, hp]
      exact congrArg Prod.snd he
    | completeCheckpoint id snapshot revision =>
      have h' : completeCheckpointFenced s lease now id snapshot revision = .ok (u, s') := h
      simp only [storeOp, RunStore.apply, h', commit]
    | appendTranscript codec i messages at' =>
      have h' : appendTranscriptFenced codec s lease now i messages at' = .ok (u, s') := h
      simp only [storeOp, RunStore.apply, h', commit]
  rw [← ha]
  exact s.queueStep _

theorem ControlOp.queueStep {op : ControlOp} {u : Unit} (h : op.transaction s = .ok (u, s')) :
    ∃ storeOp : StoreOp, storeOp.keepsLease = true ∧
      QueueStep s.run s.lease storeOp s'.run s'.lease := by
  cases op with
  | requestCancel at' =>
    obtain ⟨_, hs, he⟩ := except_map_ok h
    cases he
    exact ⟨.requestCancel at', rfl, requestCancel_queueStep hs⟩
  | decide id d =>
    obtain ⟨p, hs, he⟩ := except_map_ok h
    cases he
    exact ⟨.decide id d, rfl, decideApproval_queueStep hs⟩
  | rewind id now =>
    obtain ⟨p, hs, he⟩ := except_map_ok h
    cases he
    exact ⟨.rewind id now, rfl, rewind_queueStep hs⟩

theorem FencedWrite.keepsLease (w : FencedWrite) (lease : RunLease) (now : Timestamp) :
    (w.storeOp lease now).keepsLease := by
  cases w <;> rfl

theorem QueueStep.sameIdentity {r r' : Run} {l l' : Option RunLeaseRecord} {op : StoreOp}
    (h : QueueStep r l op r' l') : r'.tenantId = r.tenantId ∧ r'.id = r.id ∧
      r'.workspaceId = r.workspaceId := by
  cases h with
  | kept | renewed | discarded | cancelling => exact ⟨rfl, rfl, rfl⟩
  | claimed _ _ moved | started _ moved | retried _ moved | cancelledExpired _ moved
  | cancelled _ moved | woken _ moved =>
    obtain ⟨-, hid⟩ := transitionRun_frame moved
    exact ⟨hid.tenantId, hid.id, hid.workspaceId⟩
  | finished moved columns =>
    obtain ⟨_, _, rfl⟩ := columns
    obtain ⟨-, hid⟩ := transitionRun_frame moved
    exact ⟨hid.tenantId, hid.id, hid.workspaceId⟩
  | requeuedExpired _ moved moved' =>
    obtain ⟨-, hid⟩ := transitionRun_frame moved
    obtain ⟨-, hid'⟩ := transitionRun_frame moved'
    exact ⟨hid'.tenantId.trans hid.tenantId, hid'.id.trans hid.id,
      hid'.workspaceId.trans hid.workspaceId⟩
  | rewound moved =>
    obtain ⟨-, rfl⟩ := rewindRun_eq moved
    exact ⟨rfl, rfl, rfl⟩

theorem Fleet.run?_key {r : FleetRun} (h : f.run? tenantId runId = some r) : r.key = (tenantId, runId) :=
  (lookup_some h).2

theorem Fleet.returnWorkerSlot_runs (f : Fleet) (workerId : String) :
    (f.returnWorkerSlot workerId).runs = f.runs := by
  unfold returnWorkerSlot
  split <;> rfl

theorem Fleet.returnWorkerSlot_workspaces (f : Fleet) (workerId : String) :
    (f.returnWorkerSlot workerId).workspaces = f.workspaces := by
  unfold returnWorkerSlot
  split <;> rfl

theorem recoverExpired_lease (h : recoverExpired s at' = .ok s')
    : s'.lease = s.lease ∨ s'.lease = none := by
  have hs := recoverExpired_queueStep h
  generalize s'.run = r' at hs
  generalize s'.lease = l' at hs ⊢
  cases hs with
  | kept | retried => exact .inl rfl
  | cancelledExpired | requeuedExpired | discarded => exact .inr rfl

theorem Fleet.claim_cases {w : String} {t wsToken : Uuid} {ex : Timestamp}
    {lease? : Option RunLease} (h : f.claim w tenantId runId t wsToken at' ex = .ok (lease?, f')) :
    lease? = none ∧ f' = f ∨ ∃ worker r s, lease?.isSome = true ∧ f.worker? w = some worker ∧
        worker.availableSlots ≠ 0 ∧ f.run? tenantId runId = some r ∧
        (f.workspaceRow tenantId r.store.run.workspaceId).owner = none ∧
        AgentPlatform.claim r.store w t at' ex = .ok (lease?, s) ∧
        f' = ((f.setRun { r with store := s }).setWorkspace
          ((f.workspaceRow tenantId r.store.run.workspaceId).takenBy
            { runId := runId, workerId := w, runLeaseToken := t, leaseToken := wsToken
              acquiredAt := at', expiresAt := ex })).setWorker
            { worker with availableSlots := worker.availableSlots - 1 } := by
  unfold Fleet.claim at h
  split at h
  · cases h
  rename_i hwk
  split at h
  · cases h
    exact .inl ⟨rfl, rfl⟩
  rename_i hac
  split at h
  · cases h
    exact .inl ⟨rfl, rfl⟩
  rename_i r hr
  dsimp only at h
  split at h
  · cases h
    exact .inl ⟨rfl, rfl⟩
  rename_i hown
  split at h
  · cases h
  · cases h
    exact .inl ⟨rfl, rfl⟩
  next hc =>
    cases h
    exact .inr ⟨_, r, _, rfl, hwk, fun hz => hac (.inr hz), hr, not_not.mp hown, hc, rfl⟩

theorem Fleet.finish_inv {result : RunExecutionResult} {status : RunStatus}
    (h : f.finish lease result at' = .ok (status, f')) :
    ∃ r s, f.run? lease.tenantId lease.runId = some r ∧
      AgentPlatform.finish r.store lease result at' = .ok (status, s) ∧
      f' = ((f.setRun { r with store := s }).releaseWorkspaceForRun
        lease.leaseToken).returnWorkerSlot lease.workerId := by
  unfold Fleet.finish at h
  split at h
  · cases h
  next hrun =>
    cases h
    obtain ⟨hm, -⟩ | ⟨r, s, hr, hs, rfl⟩ := onRun_ok hrun
    · cases hm
    · exact ⟨r, s, hr, hs, rfl⟩

theorem Fleet.recoverRun_inv {key : Uuid × Uuid} (h : f.recoverRun at' key = .ok f') :
    f.run? key.1 key.2 = none ∧ f' = f ∨
      ∃ r s, f.run? key.1 key.2 = some r ∧ AgentPlatform.recoverExpired r.store at' = .ok s ∧
        (s.lease = r.store.lease ∧ f' = f.setRun { r with store := s } ∨
          ∃ row, r.store.lease = some row ∧ s.lease = none ∧
            f' = ((f.setRun { r with store := s }).releaseWorkspaceForRun
              row.leaseToken).returnWorkerSlot row.workerId) := by
  unfold recoverRun at h
  cases hr : f.run? key.1 key.2 with
  | none =>
    rw [hr] at h
    cases h
    exact .inl ⟨rfl, rfl⟩
  | some r =>
    rw [hr] at h
    dsimp only at h
    cases hs : AgentPlatform.recoverExpired r.store at' with
    | error => rw [hs] at h; cases h
    | ok s =>
      rw [hs] at h
      dsimp only at h
      refine .inr ⟨r, s, rfl, hs, ?_⟩
      split at h
      next row hrow hn =>
        cases h
        exact .inr ⟨row, hrow, hn, rfl⟩
      next ho =>
        cases h
        refine .inl ⟨?_, rfl⟩
        rcases recoverExpired_lease hs with hsa | hn
        · exact hsa
        · cases hrow : r.store.lease with
          | none => exact hn
          | some row => exact absurd hn (ho row hrow)

theorem Fleet.appendIdempotentFenced_ok {now : Timestamp} {key : String} {body : EventBody}
    {event : AgentEventRecord}
    (h : f.appendIdempotentFenced lease now key body at' = .ok (event, f')) :
    ∃ r r', f.run? lease.tenantId lease.runId = some r ∧ r.store.leaseActive lease now ∧
      r'.store = r.store ∧ f' = f.setRun r' := by
  unfold appendIdempotentFenced at h
  split at h
  · cases h
  rename_i r hr
  by_cases ha : r.store.leaseActive lease now
  · rw [assertActiveRunLease, if_pos ha] at h
    dsimp only at h
    split at h
    · cases h
    rename_i r' hap
    cases h
    refine ⟨r, r', hr, ha, ?_, rfl⟩
    unfold FleetRun.appendIdempotent at hap
    split at hap
    · split at hap
      · cases hap
      · cases hap
        rfl
    · cases hap
      rfl
  · rw [assertActiveRunLease, if_neg ha] at h
    cases h

def Fleet.workspaceGeneration (f : Fleet) (key : Uuid × Uuid) : ℕ :=
  (f.workspaceRow key.1 key.2).generation

theorem Fleet.workspaceRow_key (f : Fleet) (tenantId workspaceId : Uuid) :
    (f.workspaceRow tenantId workspaceId).key = (tenantId, workspaceId) := by
  unfold workspaceRow
  cases h : f.workspace? tenantId workspaceId with
  | none => rfl
  | some => exact (lookup_some h).2

theorem Fleet.workspaceRow_of_some {workspaceId : Uuid} {w : WorkspaceLeaseRecord}
    (h : f.workspace? tenantId workspaceId = some w) : f.workspaceRow tenantId workspaceId = w := by
  simp [workspaceRow, h]

structure Fleet.Evolves (minted : List Uuid) (f f' : Fleet) : Prop where
  leases : ∀ token, f'.HasLease token → f.HasLease token ∨ token ∈ minted
  generations : ∀ key, f.workspaceGeneration key ≤ f'.workspaceGeneration key

namespace Fleet.Evolves

variable {minted : List Uuid} {f f' f'' : Fleet}

theorem refl : f.Evolves minted f := ⟨fun _ h => .inl h, fun _ => le_rfl⟩

theorem trans (h : f.Evolves minted f') (h' : f'.Evolves minted f'') : f.Evolves minted f'' := by
  refine ⟨fun token ht => ?_, fun key => (h.generations key).trans (h'.generations key)⟩
  rcases h'.leases token ht with ht | hmin
  · exact h.leases token ht
  · exact .inr hmin

theorem frame (h : f'.runs = f.runs ∧ f'.workspaces = f.workspaces) : f.Evolves minted f' := by
  refine ⟨fun token ht => .inl ?_, fun key => ?_⟩
  · unfold Fleet.HasLease at ht ⊢
    rwa [h.1] at ht
  · simp only [workspaceGeneration, workspaceRow, workspace?, h.2, le_refl]

theorem setRun {r r' : FleetRun} (hr : r ∈ f.runs)
    (hl : ∀ token, r'.store.lease.any (·.leaseToken = token) = true →
      r.store.lease.any (·.leaseToken = token) = true ∨ token ∈ minted) :
    f.Evolves minted (f.setRun r') := by
  refine ⟨?_, fun key => le_rfl⟩
  rintro token ⟨x, hx, hxt⟩
  rcases mem_of_mem_upsert hx with rfl | hx
  · exact (hl token hxt).imp (fun h => ⟨r, hr, h⟩) id
  · exact .inl ⟨x, hx, hxt⟩

theorem setWorkspace {tenantId workspaceId : Uuid} {w : WorkspaceLeaseRecord}
    (hkey : w.key = (tenantId, workspaceId))
    (hw : (f.workspaceRow tenantId workspaceId).generation ≤ w.generation) :
    f.Evolves minted (f.setWorkspace w) := by
  refine ⟨fun _ h => .inl h, fun key => ?_⟩
  by_cases hk : w.key = key
  · obtain rfl := hkey.symm.trans hk
    refine hw.trans (le_of_eq ?_)
    simp [workspaceGeneration, workspaceRow, workspace?, Fleet.setWorkspace, ← hkey]
  · refine le_of_eq ?_
    simp [workspaceGeneration, workspaceRow, workspace?, Fleet.setWorkspace,
      lookup_upsert_of_ne hk]

theorem released (token : Uuid) (workerId : String) :
    f.Evolves minted ((f.releaseWorkspaceForRun token).returnWorkerSlot workerId) := by
  have hc : f.Evolves minted (f.releaseWorkspaceForRun token) := by
    refine ⟨fun _ h => .inl h, fun key => le_of_eq ?_⟩
    let clear : WorkspaceLeaseRecord → WorkspaceLeaseRecord := fun w =>
      if w.owner.any (·.runLeaseToken = token) then w.cleared else w
    have hcl : ∀ w, (clear w).key = w.key ∧ (clear w).generation = w.generation := by
      intro w
      dsimp only [clear]
      split <;> exact ⟨rfl, rfl⟩
    have hlk := lookup_map (fun w => (hcl w).1) (key.1, key.2) f.workspaces
    simp only [workspaceGeneration, workspaceRow, workspace?]
    change _ = ((lookup WorkspaceLeaseRecord.key (key.1, key.2)
      (f.workspaces.map clear)).getD _).generation
    rw [hlk]
    cases lookup WorkspaceLeaseRecord.key (key.1, key.2) f.workspaces with
    | none => rfl
    | some w => exact (hcl w).2.symm
  exact hc.trans
    (frame ⟨returnWorkerSlot_runs _ _, returnWorkerSlot_workspaces _ _⟩)

end Fleet.Evolves

theorem Fleet.recoverExpired_induction {R : Fleet → Fleet → Prop} (refl : ∀ f, R f f)
    (trans : ∀ {f f' f''}, R f f' → R f' f'' → R f f'')
    (hrun : ∀ {f f' : Fleet} {key}, f.recoverRun at' key = .ok f' → R f f') :
    ∀ {selected : List (Uuid × Uuid)} {f f' : Fleet},
      f.recoverExpired at' selected = .ok f' → R f f' := by
  intro selected
  induction selected with
  | nil =>
    intro f f' h
    cases h
    exact refl f
  | cons key _ ih =>
    intro f f' h
    simp only [Fleet.recoverExpired] at h
    cases hs : f.recoverRun at' key with
    | error => rw [hs] at h; cases h
    | ok =>
      rw [hs] at h
      exact trans (hrun hs) (ih h)

def Fleet.Stores (f : Fleet) (r : FleetRun) : Prop :=
  KeyedTable.lookup FleetRun.key r.key f.runs = some r

theorem Fleet.stores_of_run? {r : FleetRun} (h : f.run? tenantId runId = some r) : f.Stores r := by
  rw [Fleet.Stores, run?_key h]
  exact h

def Fleet.Bound (f : Fleet) (w : WorkspaceLeaseRecord) : Prop :=
  ∀ o ∈ w.owner, ∃ r row, f.run? w.tenantId o.runId = some r ∧ r.store.lease = some row ∧
    row.leaseToken = o.runLeaseToken ∧ row.workerId = o.workerId ∧ o.expiresAt ≤ row.expiresAt

/-- **Everything a transaction does to the tables of the fleet**. -/
inductive Fleet.Step (op : FleetOp) (f : Fleet) : Fleet → Prop
  | submitted {x : Submission} (new : ∀ r ∈ f.runs, r.store.run.id ≠ x.runId) :
      Step op f (f.setRun { store := submit x })
  | worker {row : WorkerRecord}
      (slots : row.availableSlots + f.activeWorkerLeases row.workerId ≤ row.totalSlots ∨
        f.worker? row.workerId = none ∧ op = .registerWorker row ∨
        ∃ old, f.worker? row.workerId = some old ∧ row.availableSlots = old.availableSlots ∧
          row.totalSlots = old.totalSlots) : Step op f (f.setWorker row)
  | claimed {w : String} {tenantId runId t wsToken : Uuid} {at' ex : Timestamp}
      {worker : WorkerRecord} {r : FleetRun} {s : RunStore}
      (call : op = .claim w tenantId runId t wsToken at' ex) (registered : f.worker? w = some worker)
      (free : worker.availableSlots ≠ 0) (found : f.run? tenantId runId = some r)
      (same : ({ r with store := s } : FleetRun).key = r.key) (unleased : r.store.lease = none)
      (leased : s.lease = some (claimedLease r.store.run w t at' ex)) :
      Step op f (((f.setRun { r with store := s }).setWorkspace
        ((f.workspaceRow tenantId r.store.run.workspaceId).takenBy
          { runId := runId, workerId := w, runLeaseToken := t, leaseToken := wsToken
            acquiredAt := at', expiresAt := ex })).setWorker
        { worker with availableSlots := worker.availableSlots - 1 })
  | wrote {r r' : FleetRun} (found : f.Stores r) (same : r'.key = r.key)
      (kept : r'.store.lease = r.store.lease) : Step op f (f.setRun r')
  | renewed {l : RunLease} {at' ex : Timestamp} {r r' : FleetRun} {row : RunLeaseRecord}
      (call : op = .heartbeat l at' ex) (found : f.run? l.tenantId l.runId = some r)
      (same : r'.key = r.key) (held : r.store.lease = some row) (owner : row.workerId = l.workerId)
      (kept : r'.store.lease = some { row with lastHeartbeatAt := at', expiresAt := ex }) :
      Step op f (f.setRun r')
  | released {r r' : FleetRun} {row : RunLeaseRecord} (found : f.Stores r) (same : r'.key = r.key)
      (held : r.store.lease = some row) (gone : r'.store.lease = none) :
      Step op f (((f.setRun r').releaseWorkspaceForRun row.leaseToken).returnWorkerSlot row.workerId)
  | owned {w : WorkspaceLeaseRecord} (bound : f.Bound w)
      (generation : (f.workspaceRow w.tenantId w.workspaceId).generation ≤ w.generation) :
      Step op f (f.setWorkspace w)

section Operations

open Relation

variable {f f' : Fleet} {op : FleetOp} {at' ex : Timestamp} {lease : RunLease} {s : RunStore}

theorem QueueStep.key_eq {r : FleetRun} {storeOp : StoreOp}
    (h : QueueStep r.store.run r.store.lease storeOp s.run s.lease) :
    ({ r with store := s } : FleetRun).key = r.key := by
  obtain ⟨hid₁, hid₂, -⟩ := h.sameIdentity
  simp [FleetRun.key, hid₁, hid₂]

namespace Fleet

theorem onRun_steps {α : Type} {tenantId runId : Uuid} {a : α}
    {missing : Except Failure (α × Fleet)} {g : RunStore → Except Failure (α × RunStore)}
    (h : f.onRun tenantId runId missing g = .ok (a, f'))
    (hmi : ∀ f'', missing = .ok (a, f'') → f'' = f)
    (hg : ∀ s s', g s = .ok (a, s') → ∃ op : StoreOp, op.keepsLease = true ∧
      QueueStep s.run s.lease op s'.run s'.lease) : ReflTransGen (Fleet.Step op) f f' := by
  obtain ⟨hm, -⟩ | ⟨_, s, hr, hs, rfl⟩ := onRun_ok h
  · rw [hmi _ hm]
  · obtain ⟨_, hop, hst⟩ := hg _ _ hs
    exact .single (.wrote (stores_of_run? hr) hst.key_eq (hst.lease_eq hop))

theorem acquire_steps {token : Uuid} {result : Option WorkspaceWriterLease}
    (h : f.acquire lease token at' ex = .ok (result, f')) :
    ReflTransGen (Fleet.Step op) f f' := by
  have hkey := f.workspaceRow_key lease.tenantId lease.workspaceId
  have hten : (f.workspaceRow lease.tenantId lease.workspaceId).tenantId = lease.tenantId :=
    congrArg Prod.fst hkey
  have hws : (f.workspaceRow lease.tenantId lease.workspaceId).workspaceId = lease.workspaceId :=
    congrArg Prod.snd hkey
  unfold acquire at h
  split at h
  · cases h
  rename_i r hr
  split at h
  · cases h
  rename_i row hrow
  split at h
  · cases h
  rename_i hm
  simp only [not_not, RunLeaseRecord.matches, and_eq_true, decide_eq_true_eq] at hm
  split at h
  · cases h
  dsimp only at h
  split at h
  · cases h
  split at h
  next o ho =>
    split at h
    next hown =>
      cases h
      refine .single (.owned ?_ (by rw [hten, hws]))
      rintro _ ⟨⟩
      refine ⟨r, row, ?_, hrow, hm.1.2.trans hown.1.symm, hm.1.1.2.trans hown.2.2.symm,
        min_le_right _ _⟩
      rw [hten, hown.2.1]
      exact hr
    · cases h
      exact .refl
  · split at h
    · cases h
    · cases h
      refine .single (.owned ?_ ?_)
      · rintro _ ⟨⟩
        refine ⟨r, row, ?_, hrow, hm.1.2, hm.1.1.2, min_le_right _ _⟩
        simp only [takenBy, hten]
        exact hr
      · simp only [takenBy, hten, hws]
        exact Nat.le_succ _

theorem heartbeatWorkspace_steps {lease lease' : WorkspaceWriterLease}
    (h : f.heartbeatWorkspace lease at' ex = .ok (lease', f')) :
    ReflTransGen (Fleet.Step op) f f' := by
  unfold heartbeatWorkspace at h
  split at h
  next row w hrow hw =>
    split at h
    next hc =>
      dsimp only at h
      split at h
      · cases h
      split at h
      · cases h
      next o ho =>
        cases h
        obtain ⟨r, hr, hl⟩ := Option.bind_eq_some_iff.1 hrow
        obtain ⟨hten, hws⟩ := Prod.ext_iff.1 (lookup_some hw).2
        obtain ⟨htk, -, hwk, -, -, hown⟩ := hc
        simp only [ownedBy, ho, any_some, and_eq_true,
          decide_eq_true_eq] at hown
        refine .single (.owned ?_ ?_)
        · rintro _ ⟨⟩
          refine ⟨r, row, ?_, hl, htk.trans hown.2.2.symm, hwk.trans hown.2.1.1.2.symm,
            min_le_right _ _⟩
          dsimp only [WorkspaceLeaseRecord.key] at hten ⊢
          rw [hten, hown.2.1.1.1]
          exact hr
        · dsimp only [WorkspaceLeaseRecord.key] at hten hws ⊢
          rw [hten, hws, workspaceRow_of_some hw]
    · cases h
  · cases h

theorem release_steps {lease : WorkspaceWriterLease} {u : Unit}
    (h : f.release lease = .ok (u, f')) : ReflTransGen (Fleet.Step op) f f' := by
  unfold release at h
  split at h
  · cases h
  rename_i w hw
  split at h
  · split at h
    · cases h
      exact .refl
    · cases h
  split at h
  · cases h
  · cases h
    obtain ⟨hten, hws⟩ := Prod.ext_iff.1 (lookup_some hw).2
    refine .single (.owned (fun _ h => by cases h) ?_)
    dsimp only [WorkspaceLeaseRecord.key, cleared] at hten hws ⊢
    rw [hten, hws, workspaceRow_of_some hw]

theorem recoverRun_steps {key : Uuid × Uuid} (h : f.recoverRun at' key = .ok f') :
    ReflTransGen (Fleet.Step op) f f' := by
  obtain ⟨-, rfl⟩ | ⟨r, s, hr, hs, hc⟩ := recoverRun_inv h
  · exact .refl
  · have hkey := (recoverExpired_queueStep hs).key_eq
    obtain ⟨hl, rfl⟩ | ⟨_, hl, hn, rfl⟩ := hc
    · exact .single (.wrote (stores_of_run? hr) hkey hl)
    · exact .single (.released (stores_of_run? hr) hkey hl hn)

theorem registerWorker_steps {w row : WorkerRecord}
    (h : f.registerWorker w = .ok (row, f')) :
    ReflTransGen (Fleet.Step (.registerWorker w)) f f' := by
  unfold registerWorker at h
  split at h
  next hn =>
    cases h
    exact .single (.worker (.inr (.inl ⟨hn, rfl⟩)))
  split at h
  · cases h
  dsimp only at h
  split at h
  · cases h
  · cases h
    exact .single (.worker (.inl (by dsimp only; omega)))

theorem heartbeatWorker_steps {id : String} {slots : ℕ} {row : WorkerRecord}
    (h : f.heartbeatWorker id at' slots = .ok (row, f')) : ReflTransGen (Fleet.Step op) f f' := by
  unfold heartbeatWorker at h
  split at h
  · cases h
  rename_i old hw
  obtain rfl : old.workerId = id := (lookup_some hw).2
  split at h
  · cases h
  split at h
  · cases h
  dsimp only at h
  split at h
  · cases h
  · cases h
    exact .single (.worker (.inl (by dsimp only; omega)))

theorem setWorkerDraining_steps {id : String} {draining : Bool} {row : WorkerRecord}
    (h : f.setWorkerDraining id draining at' = .ok (row, f')) :
    ReflTransGen (Fleet.Step op) f f' := by
  unfold setWorkerDraining at h
  split at h
  · cases h
  rename_i old hw
  obtain rfl : old.workerId = id := (lookup_some hw).2
  split at h
  · cases h
  · cases h
    exact .single (.worker (.inr (.inr ⟨old, hw, rfl, rfl⟩)))

theorem perform_steps (h : f.perform op = .ok f') : ReflTransGen (Fleet.Step op) f f' := by
  cases op with
  | submit x =>
    simp only [Fleet.perform] at h
    split at h
    · cases h
    rename_i hn
    cases h
    exact .single (.submitted (by simpa using hn))
  | registerWorker =>
    obtain ⟨p, hp, rfl⟩ := except_map_ok h
    exact registerWorker_steps hp
  | heartbeatWorker =>
    obtain ⟨p, hp, rfl⟩ := except_map_ok h
    exact heartbeatWorker_steps hp
  | setWorkerDraining =>
    obtain ⟨p, hp, rfl⟩ := except_map_ok h
    exact setWorkerDraining_steps hp
  | claim w tenantId runId t wsToken at' ex =>
    obtain ⟨p, hp, rfl⟩ := except_map_ok h
    obtain ⟨-, he⟩ | ⟨_, r, s, hsome, hw, hfree, hr, -, hc, he⟩ := claim_cases hp
    · rw [he]
    · rw [he]
      have hkey := (claim_queueStep hc).key_eq
      obtain ⟨hn, -⟩ | ⟨run, -, -, hn, hm, _, rfl, rfl, -⟩ := claim_ok hc
      · simp [hn] at hsome
      · obtain ⟨-, hid⟩ := transitionRun_frame hm
        exact .single (.claimed rfl hw hfree hr hkey hn
          (by simp [claimedLease, hid.tenantId, hid.id]))
  | start l at' =>
    obtain ⟨p, hp, rfl⟩ := except_map_ok h
    exact onRun_steps hp (fun _ h => by cases h) fun _ _ hs =>
      ⟨.start l at', rfl, start_queueStep hs⟩
  | heartbeat l at' ex =>
    obtain ⟨p, hp, rfl⟩ := except_map_ok h
    obtain ⟨hm, -⟩ | ⟨r, s, hr, hs, he⟩ := onRun_ok hp
    · cases hm
    · rw [he]
      have hkey := (heartbeat_queueStep hs).key_eq
      obtain ⟨row, hown, -, rfl⟩ := heartbeat_ok hs
      obtain ⟨hl, hma, -⟩ := ownedLeaseRow_ok hown
      simp only [RunLeaseRecord.matches, and_eq_true, decide_eq_true_eq] at hma
      exact .single (.renewed rfl hr hkey hl hma.1.1.2 rfl)
  | finish l =>
    obtain ⟨p, hp, rfl⟩ := except_map_ok h
    obtain ⟨r, _, hr, hs, he⟩ := Fleet.finish_inv hp
    rw [he]
    have hkey := (finish_queueStep hs).key_eq
    obtain ⟨row, _, hown, -, -, rfl⟩ := finish_ok hs
    obtain ⟨hl, hma, -⟩ := ownedLeaseRow_ok hown
    simp only [RunLeaseRecord.matches, and_eq_true, decide_eq_true_eq] at hma
    rw [← hma.1.2, ← hma.1.1.2]
    exact .single (.released (stores_of_run? hr) hkey hl rfl)
  | recoverExpired =>
    exact recoverExpired_induction (fun _ => .refl) .trans recoverRun_steps h
  | control =>
    obtain ⟨p, hp, rfl⟩ := except_map_ok h
    refine onRun_steps hp ?_ fun _ _ hs => ControlOp.queueStep hs
    intro f'' hf
    cases hf
    rfl
  | acquire =>
    obtain ⟨p, hp, rfl⟩ := except_map_ok h
    exact acquire_steps hp
  | heartbeatWorkspace =>
    obtain ⟨p, hp, rfl⟩ := except_map_ok h
    exact heartbeatWorkspace_steps hp
  | release =>
    obtain ⟨p, hp, rfl⟩ := except_map_ok h
    exact release_steps hp
  | appendEvent =>
    obtain ⟨p, hp, rfl⟩ := except_map_ok h
    obtain ⟨r, r', hr, -, hst, he⟩ := appendIdempotentFenced_ok hp
    rw [he]
    exact .single (.wrote (stores_of_run? hr) (by simp [FleetRun.key, hst]) (by rw [hst]))
  | write l now w =>
    obtain ⟨p, hp, rfl⟩ := except_map_ok h
    exact onRun_steps hp (fun _ h => by cases h) fun _ _ hs =>
      ⟨_, w.keepsLease l now, FencedWrite.queueStep hs⟩
  | authorize =>
    obtain ⟨_, -, rfl⟩ := except_map_ok h
    exact .refl

end Fleet

end Operations

theorem Fleet.perform_induction {P : Fleet → Prop} {op : FleetOp} (h : f.perform op = .ok f')
    (hf : P f) (hstep : ∀ {a b}, Fleet.Step op a b → P a → P b) : P f' := by
  have hs := perform_steps h
  clear h
  induction hs with
  | refl => exact hf
  | tail _ hs ih => exact hstep hs ih

theorem Fleet.apply_induction {P : Fleet → Prop} {op : FleetOp} (h : P f)
    (hstep : ∀ {a b}, Fleet.Step op a b → P a → P b) : P (f.apply op) := by
  unfold Fleet.apply
  cases hp : f.perform op with
  | error => exact h
  | ok => exact perform_induction hp h hstep

theorem Fleet.Step.evolves {op : FleetOp} (h : Fleet.Step op f f') : f.Evolves op.minted f' := by
  cases h with
  | submitted =>
    refine ⟨?_, fun key => le_rfl⟩
    rintro token ⟨r, hr, hrt⟩
    rcases mem_of_mem_upsert hr with rfl | hr
    · cases hrt
    · exact .inl ⟨r, hr, hrt⟩
  | worker => exact .frame ⟨rfl, rfl⟩
  | claimed call _ _ found _ unleased leased =>
    subst call
    refine .trans (.trans (.setRun (mem_of_run? found) ?_) (.setWorkspace
      (show (takenBy _ _).key = _ from f.workspaceRow_key _ _)
      (Nat.le_succ _))) (.frame ⟨rfl, rfl⟩)
    intro token ht
    simp only [leased, claimedLease, any_some, decide_eq_true_eq] at ht
    simp [FleetOp.minted, ht]
  | wrote found _ kept =>
    exact .setRun (lookup_some found).1 fun token ht => .inl (kept ▸ ht)
  | renewed _ found _ held _ kept =>
    refine .setRun (mem_of_run? found) fun token ht => .inl ?_
    rw [kept] at ht
    rw [held]
    exact ht
  | released found _ _ gone =>
    refine .trans (.setRun (lookup_some found).1 fun token ht => ?_) (.released _ _)
    rw [gone] at ht
    cases ht
  | owned _ generation => exact .setWorkspace rfl generation

theorem Fleet.evolves_apply (f : Fleet) (op : FleetOp) : f.Evolves op.minted (f.apply op) :=
  apply_induction (P := f.Evolves op.minted) .refl fun hs ih => ih.trans hs.evolves

end AgentPlatform
