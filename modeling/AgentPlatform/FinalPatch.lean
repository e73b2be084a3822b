/-
**The final patch: one immutable object for all attempts of an epoch.**
-/

import AgentPlatform.Histories
import AgentPlatform.TenantLifecycle
import AgentPlatform.TerminalEvents

namespace AgentPlatform

open KeyedTable

abbrev Patch := List UInt8

structure StoredObject where
  objectKey : ObjectKey
  sha256 : String
  sizeBytes : ℕ
  contentType : String
  etag : Option String
  deriving DecidableEq

structure FinalArtifact where
  name : ObjectKey
  tenantId : Uuid
  workspaceId : Uuid
  runId : Uuid
  executionEpoch : ℕ
  object : StoredObject
  createdAt : Timestamp
  deriving DecidableEq

def finalPatchObjectKey (tenantId workspaceId runId : Uuid) (executionEpoch : ℕ) :
    Except Failure ObjectKey :=
  if executionEpoch < 1 then .error (.validation "execution_epoch must be a positive integer")
  else .ok (.finalPatch tenantId workspaceId runId executionEpoch)

def createArtifactFenced (rows : List FinalArtifact) (s : RunStore) (lease : RunLease)
    (now : Timestamp) (artifact : FinalArtifact) : Except Failure (List FinalArtifact) :=
  if artifact.tenantId ≠ lease.tenantId ∨ artifact.workspaceId ≠ lease.workspaceId ∨
      artifact.runId ≠ lease.runId ∨ artifact.executionEpoch ≠ lease.executionEpoch then
    domainError "artifact_lease_mismatch"
      "the final artifact does not belong to the active run lease"
  else
    match assertActiveRunLease s lease now with
    | .error f => .error f
    | .ok () =>
      match KeyedTable.lookup FinalArtifact.name artifact.name rows with
      | none => .ok (rows ++ [artifact])
      | some persisted =>
        if persisted.tenantId ≠ artifact.tenantId ∨ persisted.workspaceId ≠ artifact.workspaceId ∨
            persisted.runId ≠ artifact.runId ∨ persisted.object ≠ artifact.object then
          domainError "artifact_id_conflict"
            "the artifact ID belongs to different immutable metadata"
        else .ok rows

inductive FinalizationStage where
  | captured
  | rejected
  | uploaded (stored : StoredObject)
  | published
  | failed (failure : Failure)
  deriving DecidableEq

structure Finalization where
  lease : RunLease
  key : ObjectKey
  patch : Patch
  stage : FinalizationStage

inductive FinalizationEvent where
  | uploaded (key : ObjectKey) (patch : Patch)
  | failed (generation : ℕ) (active : Bool) (failure : Failure)
  deriving DecidableEq

structure Publication where
  world : World
  bucket : List StoredObject := []
  artifacts : List FinalArtifact := []
  finalizations : ℕ → Option Finalization := fun _ => none
  log : List FinalizationEvent := []

inductive PublicationOp where
  | system (op : SystemOp)
  | capture (generation : ℕ) (patch : Patch) (now : Timestamp)
  | put (generation : ℕ) (etag : Option String) (now : Timestamp)
  | head (generation : ℕ) (now : Timestamp)
  | publish (generation : ℕ) (now createdAt : Timestamp)

section Steps

variable (digest : Patch → String)

def Publication.setStage (w : Publication) (g : ℕ) (fin : Finalization)
    (stage : FinalizationStage) : Publication :=
  { w with finalizations := fun g' =>
      if g' = g then some { fin with stage := stage } else w.finalizations g' }

def Publication.fail (w : Publication) (g : ℕ) (fin : Finalization) (now : Timestamp)
    (failure : Failure) : Publication :=
  { w.setStage g fin (.failed failure) with
    world := w.world.apply (.interrupt g (.raised failure))
    log := w.log ++ [.failed g (w.world.store.leaseActive fin.lease now) failure] }

def Finalization.object (fin : Finalization) (etag : Option String) : StoredObject :=
  { objectKey := fin.key
    sha256 := digest fin.patch
    sizeBytes := fin.patch.length
    contentType := "text/x-diff"
    etag := etag }

def Publication.accept (w : Publication) (g : ℕ) (fin : Finalization) (now : Timestamp)
    (stored : StoredObject) : Publication :=
  if stored.objectKey ≠ fin.key ∨ stored.sha256 ≠ digest fin.patch ∨
      stored.sizeBytes ≠ fin.patch.length ∨ stored.contentType ≠ "text/x-diff" then
    w.fail g fin now (.domain
      { code := "final_patch_integrity_failed"
        message := "the uploaded final patch did not preserve its identity"
        retryable := true })
  else w.setStage g fin (.uploaded stored)

/-- `finalize` begins for an attempt that is about to report a completed run. -/
def Publication.capture (w : Publication) (g : ℕ) (a : Attempt) (patch : Patch)
    (now : Timestamp) : Publication :=
  let fin key := { lease := a.lease, key := key, patch := patch, stage := .captured }
  match finalPatchObjectKey a.lease.tenantId a.lease.workspaceId a.lease.runId
      a.lease.executionEpoch with
  | .error f =>
    w.fail g (fin (.finalPatch a.lease.tenantId a.lease.workspaceId a.lease.runId
      a.lease.executionEpoch)) now f
  | .ok key => w.setStage g (fin key) .captured

def Publication.put (w : Publication) (g : ℕ) (fin : Finalization) (etag : Option String)
    (now : Timestamp) : Publication :=
  match KeyedTable.lookup StoredObject.objectKey fin.key w.bucket with
  | some _ => w.setStage g fin .rejected
  | none =>
    let stored := fin.object digest etag
    let w : Publication :=
      { w with
        bucket := w.bucket ++ [stored]
        log := w.log ++ [.uploaded fin.key fin.patch] }
    w.accept digest g fin now stored

/-- `_upload_sync` after a refused put. -/
def Publication.head (w : Publication) (g : ℕ) (fin : Finalization) (now : Timestamp) :
    Publication :=
  match KeyedTable.lookup StoredObject.objectKey fin.key w.bucket with
  | none =>
    w.fail g fin now (.domain
      { code := "artifact_upload_failed"
        message := "artifact storage operation failed"
        retryable := true })
  | some existing =>
    if existing.sizeBytes ≠ fin.patch.length ∨ existing.contentType ≠ "text/x-diff" ∨
        existing.sha256 ≠ digest fin.patch then
      w.fail g fin now (.domain
        { code := "artifact_immutable_conflict"
          message := "the immutable artifact key already contains different content" })
    else w.accept digest g fin now (fin.object digest existing.etag)

def Finalization.artifact (fin : Finalization) (stored : StoredObject) (createdAt : Timestamp) :
    FinalArtifact :=
  { name := stored.objectKey
    tenantId := fin.lease.tenantId
    workspaceId := fin.lease.workspaceId
    runId := fin.lease.runId
    executionEpoch := fin.lease.executionEpoch
    object := stored
    createdAt := createdAt }

def Publication.publish (w : Publication) (g : ℕ) (fin : Finalization) (stored : StoredObject)
    (now createdAt : Timestamp) : Publication :=
  match createArtifactFenced w.artifacts w.world.store fin.lease now
      (fin.artifact stored createdAt) with
  | .error f => w.fail g fin now f
  | .ok rows => { w with artifacts := rows }.setStage g fin .published

def Publication.mayFinish (w : Publication) : SystemOp → Bool
  | .finish g _ =>
    match w.world.attempts g with
    | some a =>
      match a.phase with
      | .finishing result =>
        result.status ≠ .completed ||
          (w.finalizations g).any (fun fin => fin.stage = .published)
      | _ => true
    | none => true
  | _ => true

def Publication.apply (w : Publication) : PublicationOp → Publication
  | .system op => if w.mayFinish op then { w with world := w.world.apply op } else w
  | .capture g patch now =>
    match w.world.attempts g, w.finalizations g with
    | some a, none =>
      match a.phase with
      | .finishing result => if result.status = .completed then w.capture g a patch now else w
      | _ => w
    | _, _ => w
  | .put g etag now =>
    match w.finalizations g with
    | some fin => if fin.stage = .captured then w.put digest g fin etag now else w
    | none => w
  | .head g now =>
    match w.finalizations g with
    | some fin => if fin.stage = .rejected then w.head digest g fin now else w
    | none => w
  | .publish g now createdAt =>
    match w.finalizations g with
    | some fin =>
      match fin.stage with
      | .uploaded stored => w.publish g fin stored now createdAt
      | _ => w
    | none => w

def Publication.agreesWithUploads (w : Publication) : PublicationOp → Bool
  | .put g _ _ =>
    (w.finalizations g).all fun fin => w.log.all fun event =>
      match event with
      | .uploaded key patch =>
        key ≠ fin.key ||
          (patch.length = fin.patch.length && digest patch = digest fin.patch)
      | .failed _ _ _ => true
  | _ => true

end Steps

def publication (x : Submission) : Publication := { world := submitted x }

structure StoredObject.Holds (o : StoredObject) (digest : Patch → String) (key : ObjectKey)
    (patch : Patch) : Prop where
  key : o.objectKey = key
  sha256 : o.sha256 = digest patch
  sizeBytes : o.sizeBytes = patch.length
  contentType : o.contentType = "text/x-diff"

theorem Finalization.object_holds (digest : Patch → String) (fin : Finalization)
    (etag : Option String) : (fin.object digest etag).Holds digest fin.key fin.patch :=
  ⟨rfl, rfl, rfl, rfl⟩

theorem StoredObject.Holds.object {digest : Patch → String} {fin : Finalization} {o : StoredObject}
    (h : o.Holds digest fin.key fin.patch) : fin.object digest o.etag = o := by
  obtain ⟨key, _, _, _, etag⟩ := o
  obtain ⟨rfl, rfl, rfl, rfl⟩ := h
  rfl

structure Finalization.Sound (fin : Finalization) (digest : Patch → String)
    (bucket : List StoredObject) : Prop where
  key : fin.key = .finalPatch fin.lease.tenantId fin.lease.workspaceId fin.lease.runId
    fin.lease.executionEpoch
  rejected : fin.stage = .rejected → ∃ o ∈ bucket, o.Holds digest fin.key fin.patch
  uploaded : ∀ stored, fin.stage = .uploaded stored → stored ∈ bucket ∧ stored.objectKey = fin.key

structure FinalArtifact.Sound (row : FinalArtifact) (bucket : List StoredObject) : Prop where
  object : row.object ∈ bucket
  name : row.name = row.object.objectKey
  key : row.name = .finalPatch row.tenantId row.workspaceId row.runId row.executionEpoch

structure Publication.Sound (w : Publication) (digest : Patch → String) : Prop where
  epoch : 1 ≤ w.world.store.run.executionEpoch
  bucketKeys : KeyedTable.Unique StoredObject.objectKey w.bucket
  bucket : ∀ o ∈ w.bucket, ∃ patch, .uploaded o.objectKey patch ∈ w.log ∧
    o.Holds digest o.objectKey patch
  finalizations : ∀ g fin, w.finalizations g = some fin → fin.Sound digest w.bucket
  artifacts : ∀ row ∈ w.artifacts, row.Sound w.bucket
  holders : ∀ g f, .failed g true f ∉ w.log

section Steps

variable {digest : Patch → String} {w : Publication} {g : ℕ} {fin : Finalization}

theorem World.apply_epoch_le (w : World) (op : SystemOp) :
    w.store.run.executionEpoch ≤ (w.apply op).store.run.executionEpoch := by
  obtain h | ⟨h, -⟩ := (w.apply_moves op).epoch
  · exact h.ge
  · omega

theorem Publication.setStage_finalizations {g' : ℕ} {fin' : Finalization}
    {stage : FinalizationStage} : (w.setStage g fin stage).finalizations g' = some fin' ↔
      g' = g ∧ fin' = { fin with stage := stage } ∨ g' ≠ g ∧ w.finalizations g' = some fin' := by
  unfold setStage
  dsimp only
  by_cases h : g' = g
  · simp [h, eq_comm]
  · simp [h]

theorem Publication.Sound.setStage {stage : FinalizationStage} (h : w.Sound digest)
    (hf : ({ fin with stage := stage } : Finalization).Sound digest w.bucket) :
    (w.setStage g fin stage).Sound digest where
  epoch := h.epoch
  bucketKeys := h.bucketKeys
  bucket := h.bucket
  finalizations := by
    intro g' fin' hget
    obtain ⟨-, rfl⟩ | ⟨-, hold⟩ := setStage_finalizations.1 hget
    · exact hf
    · exact h.finalizations g' fin' hold
  artifacts := h.artifacts
  holders := h.holders

variable {now : Timestamp} {stored : StoredObject}

theorem Publication.Sound.fail {failure : Failure} (h : w.Sound digest)
    (hkey : fin.key = .finalPatch fin.lease.tenantId fin.lease.workspaceId fin.lease.runId
      fin.lease.executionEpoch) (hl : w.world.store.leaseActive fin.lease now = false) :
    (w.fail g fin now failure).Sound digest := by
  have hst : (w.setStage g fin (.failed failure)).Sound digest :=
    h.setStage ⟨hkey, by simp, by simp⟩
  refine ⟨h.epoch.trans (w.world.apply_epoch_le _), hst.bucketKeys, ?_, hst.finalizations,
    hst.artifacts, ?_⟩
  · intro o ho
    obtain ⟨patch, hlog, hh⟩ := h.bucket o ho
    exact ⟨patch, mem_append_left _ hlog, hh⟩
  · intro g' f hmem
    rcases mem_append.1 hmem with hold | hnew
    · exact h.holders g' f hold
    · simp [hl] at hnew

theorem Publication.Sound.accept (h : w.Sound digest)
    (hkey : fin.key = .finalPatch fin.lease.tenantId fin.lease.workspaceId fin.lease.runId
      fin.lease.executionEpoch) (hmem : stored ∈ w.bucket)
    (hh : stored.Holds digest fin.key fin.patch) :
    (w.accept digest g fin now stored).Sound digest := by
  have hs : w.accept digest g fin now stored = w.setStage g fin (.uploaded stored) :=
    if_neg (by simp [hh.key, hh.sha256, hh.sizeBytes, hh.contentType])
  rw [hs]
  refine h.setStage ⟨hkey, by simp, ?_⟩
  intro stored' hst
  cases hst
  exact ⟨hmem, hh.key⟩

theorem Finalization.Sound.mono {bucket bucket' : List StoredObject}
    (h : fin.Sound digest bucket) (hsub : bucket ⊆ bucket') : fin.Sound digest bucket' where
  key := h.key
  rejected hst :=
    let ⟨o, ho, hh⟩ := h.rejected hst
    ⟨o, hsub ho, hh⟩
  uploaded stored hst := ⟨hsub (h.uploaded stored hst).1, (h.uploaded stored hst).2⟩

namespace Publication.Sound

theorem store {etag : Option String} (h : w.Sound digest)
    (hf : lookup StoredObject.objectKey fin.key w.bucket = none) : Publication.Sound
      { w with
        bucket := w.bucket ++ [fin.object digest etag]
        log := w.log ++ [.uploaded fin.key fin.patch] } digest where
  epoch := h.epoch
  bucketKeys := h.bucketKeys.append_single (lookup_eq_none.1 hf)
  bucket := by
    intro o ho
    rcases mem_append.1 ho with ho | ho
    · obtain ⟨patch, hlog, hh⟩ := h.bucket o ho
      exact ⟨patch, mem_append_left _ hlog, hh⟩
    · obtain rfl := mem_singleton.1 ho
      exact ⟨fin.patch, mem_append_right _ (mem_singleton_self _), fin.object_holds digest etag⟩
  finalizations g' fin' hget :=
    (h.finalizations g' fin' hget).mono (subset_append_left _ _)
  artifacts row hrow :=
    let hs := h.artifacts row hrow
    ⟨mem_append_left _ hs.object, hs.name, hs.key⟩
  holders g' f hmem := h.holders g' f (by simpa using hmem)

theorem put {etag : Option String} (h : w.Sound digest)
    (hget : w.finalizations g = some fin)
    (ha : w.agreesWithUploads digest (.put g etag now)) :
    (w.put digest g fin etag now).Sound digest := by
  have hkey := (h.finalizations g fin hget).key
  unfold Publication.put
  cases hl : lookup StoredObject.objectKey fin.key w.bucket with
  | none =>
    exact (h.store hl).accept hkey (mem_append_right _ (mem_singleton_self _))
      (fin.object_holds digest etag)
  | some o =>
    obtain ⟨hmem, ho⟩ := lookup_some hl
    refine h.setStage ⟨hkey, fun _ => ⟨o, hmem, ?_⟩, by simp⟩
    obtain ⟨patch, hlog, hh⟩ := h.bucket o hmem
    rw [ho] at hlog hh
    have hs : patch.length = fin.patch.length ∧ digest patch = digest fin.patch := by
      simp only [agreesWithUploads, hget, all_some, List.all_eq_true] at ha
      simpa using ha _ hlog
    exact ⟨ho, hh.sha256.trans hs.2, hh.sizeBytes.trans hs.1, hh.contentType⟩

theorem head (h : w.Sound digest) (hget : w.finalizations g = some fin)
    (hst : fin.stage = .rejected) : (w.head digest g fin now).Sound digest := by
  have hf := h.finalizations g fin hget
  obtain ⟨o, hmem, hh⟩ := hf.rejected hst
  have hl : lookup StoredObject.objectKey fin.key w.bucket = some o :=
    h.bucketKeys.lookup_eq_some_iff.2 ⟨hmem, hh.key⟩
  unfold Publication.head
  rw [hl]
  dsimp only
  rw [if_neg (by simp [hh.sha256, hh.sizeBytes, hh.contentType]), hh.object]
  exact h.accept hf.key hmem hh

theorem createArtifactFenced (h : w.Sound digest) (createdAt : Timestamp)
    (hget : w.finalizations g = some fin) (hst : fin.stage = .uploaded stored)
    (ha : w.world.store.leaseActive fin.lease now) :
    ∃ rows, AgentPlatform.createArtifactFenced w.artifacts w.world.store fin.lease now
        (fin.artifact stored createdAt) = .ok rows ∧
      (rows = w.artifacts ∨ rows = w.artifacts ++ [fin.artifact stored createdAt]) := by
  have hf := h.finalizations g fin hget
  obtain ⟨hmem, hkey⟩ := hf.uploaded stored hst
  unfold AgentPlatform.createArtifactFenced
  rw [if_neg (by simp [Finalization.artifact])]
  simp only [assertActiveRunLease, ha, if_true]
  cases hl : lookup FinalArtifact.name (fin.artifact stored createdAt).name
      w.artifacts with
  | none => exact ⟨_, rfl, .inr rfl⟩
  | some row =>
    obtain ⟨hrow, hn⟩ := lookup_some hl
    have hs := h.artifacts row hrow
    have ho : row.object = stored :=
      inj_on_of_nodup_map h.bucketKeys hs.object hmem (hs.name.symm.trans hn)
    have hids : ObjectKey.finalPatch row.tenantId row.workspaceId row.runId row.executionEpoch =
        .finalPatch fin.lease.tenantId fin.lease.workspaceId fin.lease.runId
          fin.lease.executionEpoch :=
      hs.key.symm.trans (hn.trans (hkey.trans hf.key))
    injection hids with ht hw hrun
    exact ⟨_, if_neg (by simp [Finalization.artifact, ho, ht, hw, hrun]), .inl rfl⟩

theorem publish {createdAt : Timestamp} (h : w.Sound digest)
    (hget : w.finalizations g = some fin) (hst : fin.stage = .uploaded stored) :
    (w.publish g fin stored now createdAt).Sound digest := by
  have hf := h.finalizations g fin hget
  obtain ⟨hmem, hkey⟩ := hf.uploaded stored hst
  unfold Publication.publish
  cases ha : w.world.store.leaseActive fin.lease now with
  | true =>
    obtain ⟨rows, hr, hc⟩ := h.createArtifactFenced createdAt hget hst ha
    rw [hr]
    dsimp only
    refine Publication.Sound.setStage ⟨h.epoch, h.bucketKeys, h.bucket, h.finalizations, ?_,
      h.holders⟩ ⟨hf.key, by simp, by simp⟩
    intro row hrow
    rcases hc with rfl | rfl
    · exact h.artifacts row hrow
    · rcases mem_append.1 hrow with hrow | hrow
      · exact h.artifacts row hrow
      · obtain rfl := mem_singleton.1 hrow
        exact ⟨hmem, rfl, hkey.trans hf.key⟩
  | false =>
    split
    · exact h.fail hf.key ha
    next rows hr =>
      simp [AgentPlatform.createArtifactFenced, Finalization.artifact, assertActiveRunLease,
        ha] at hr

theorem capture {a : Attempt} {patch : Patch} (h : w.Sound digest)
    : (w.capture g a patch now).Sound digest := by
  unfold Publication.capture finalPatchObjectKey
  by_cases hep : a.lease.executionEpoch < 1
  · rw [if_pos hep]
    refine h.fail rfl ?_
    by_contra ha
    have hs : w.world.store.run.executionEpoch = a.lease.executionEpoch :=
      RunStore.leaseActive_epoch (Bool.not_eq_false _ |>.mp ha)
    have hpos := h.epoch
    omega
  · rw [if_neg hep]
    exact h.setStage ⟨rfl, by simp, by simp⟩

theorem apply (h : w.Sound digest) {op : PublicationOp}
    (ha : w.agreesWithUploads digest op) : (w.apply digest op).Sound digest := by
  cases op with
  | system op =>
    unfold Publication.apply
    dsimp only
    split
    · exact ⟨h.epoch.trans (w.world.apply_epoch_le op), h.bucketKeys, h.bucket, h.finalizations,
        h.artifacts, h.holders⟩
    · exact h
  | capture =>
    unfold Publication.apply
    dsimp only
    split
    · split
      · split
        · exact h.capture
        · exact h
      · exact h
    · exact h
  | put =>
    unfold Publication.apply
    dsimp only
    split
    · split
      · exact h.put ‹_› ha
      · exact h
    · exact h
  | head =>
    unfold Publication.apply
    dsimp only
    split
    · split
      · exact h.head ‹_› ‹_›
      · exact h
    · exact h
  | publish =>
    unfold Publication.apply
    dsimp only
    split
    · split
      · exact h.publish ‹_› ‹_›
      · exact h
    · exact h

end Publication.Sound

end Steps

theorem publication_sound (x : Submission) (digest : Patch → String) :
    (publication x).Sound digest where
  epoch := le_refl 1
  bucketKeys := nodup_nil
  bucket := by simp [publication]
  finalizations := by simp [publication]
  artifacts := by simp [publication]
  holders := by simp [publication]

/-- **Publishing the same patch is retry safe**. -/
theorem holder_publishes_same_patch (digest : Patch → String) (x : Submission)
    (ops : List PublicationOp) (h : History.Admissible (Publication.apply digest)
      (fun w op => w.agreesWithUploads digest op = true) (publication x) ops) :
    ∀ g f, .failed g true f ∉ (ops.foldl (Publication.apply digest) (publication x)).log :=
  (h.invariant (Publication.Sound · digest) (fun _ _ hw hagree => hw.apply hagree)
    (publication_sound x digest)).holders

def retriedFinalization (patch patch' : Patch) : List PublicationOp :=
  (attemptOps 1 answeringEnv 5 100 ++ workOps 1 8 6).map .system ++
    [.capture 1 patch 7, .put 1 (some "tag-1") 7] ++
    ([SystemOp.recoverExpired 101] ++ attemptOps 2 answeringEnv 102 200 ++ workOps 2 8 103).map .system ++
    [.capture 2 patch' 104, .put 2 (some "tag-2") 104, .head 2 104, .publish 2 104 104]

def firstByte (patch : Patch) : String := if patch.head? = some 7 then "seven" else "other"

theorem holder_publishes_same_patch_retried :
    (((retriedFinalization [7] [7]).foldl (Publication.apply firstByte)
        (publication (scriptedSubmission .autoApprove))).finalizations 2).map (·.stage) =
          some .published ∧
      ∀ g f, .failed g true f ∉ ((retriedFinalization [7] [7]).foldl (Publication.apply firstByte)
        (publication (scriptedSubmission .autoApprove))).log :=
  ⟨by decide, holder_publishes_same_patch firstByte (scriptedSubmission .autoApprove) _ (by decide)⟩

theorem stale_upload_fails_holder :
    ¬ ∀ (digest : Patch → String) (x : Submission) (ops : List PublicationOp) (g : ℕ) (f : Failure),
      .failed g true f ∉ (ops.foldl (Publication.apply digest) (publication x)).log := by
  intro h
  have hlog : .failed 2 true (.domain
      { code := "artifact_immutable_conflict"
        message := "the immutable artifact key already contains different content" }) ∈
      ((retriedFinalization [7] [8]).foldl (Publication.apply firstByte)
        (publication (scriptedSubmission .autoApprove))).log := by decide
  exact h _ _ _ _ _ hlog

end AgentPlatform
