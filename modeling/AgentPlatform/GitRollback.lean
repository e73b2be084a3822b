/-
**Snapshots and rollback of a Git worktree.**
-/

import AgentPlatform.DomainValues

namespace AgentPlatform

variable {C R : Type} [DecidableEq C] [DecidableEq R]

abbrev FileSet (C : Type) := Finset (String × C)

def FileSet.paths (files : FileSet C) : Finset String := files.image Prod.fst

/-- What the model takes from Git: the ignore rules, which may depend on the files, and commits.  It
assumes that staging and checking out keep the bytes of a file, and that no directory of the worktree
is a repository of its own. -/
structure Git (C R : Type) where
  ignored : FileSet C → String → Bool
  commit : FileSet C → R → ℕ → R
  treeOf : R → FileSet C
  name : R → String
  treeOf_commit : ∀ tree parent header, treeOf (commit tree parent header) = tree

structure GitWorktree (C R : Type) where
  worktree : FileSet C
  index : FileSet C
  head : R
  commits : List R
  externalFilters : Bool := false
  deriving DecidableEq

/-- `git add -A`. -/
def GitWorktree.addAll (G : Git C R) (w : GitWorktree C R) : GitWorktree C R :=
  { w with
    index := w.worktree.filter fun f =>
      f.1 ∈ FileSet.paths w.index ∨ G.ignored w.worktree f.1 = false }

/-- `git status --porcelain=v1` after everything was staged. -/
def GitWorktree.statusClean (G : Git C R) (w : GitWorktree C R) : Bool :=
  w.index = G.treeOf w.head

def GitWorktree.commitIndex (G : Git C R) (w : GitWorktree C R) (header : ℕ) : GitWorktree C R :=
  let revision := G.commit w.index w.head header
  { w with head := revision, commits := revision :: w.commits }

/-- `git reset --hard`. -/
def GitWorktree.resetHard (G : Git C R) (w : GitWorktree C R) (revision : R) : GitWorktree C R :=
  { w with
    head := revision
    index := G.treeOf revision
    worktree := G.treeOf revision ∪ w.worktree.filter fun f =>
      f.1 ∉ FileSet.paths w.index ∧ f.1 ∉ FileSet.paths (G.treeOf revision) }

/-- `git clean -fdx`. -/
def GitWorktree.clean (w : GitWorktree C R) : GitWorktree C R :=
  { w with worktree := w.worktree.filter fun f => f.1 ∈ FileSet.paths w.index }

def GitWorktree.requireNoExternalFilters (w : GitWorktree C R) : Except Failure Unit :=
  if w.externalFilters then
    domainError "workspace_external_filter_unsupported"
      "repositories with external Git clean, smudge, or process filters are unsupported"
  else .ok ()

def GitWorktree.commitState (G : Git C R) (w : GitWorktree C R) (header : ℕ) :
    Except Failure (R × GitWorktree C R) :=
  match w.requireNoExternalFilters with
  | .error e => .error e
  | .ok () =>
    let staged := w.addAll G
    let committed := if staged.statusClean G then staged else staged.commitIndex G header
    .ok (committed.head, committed)

def GitWorktree.restoreRevision (G : Git C R) (w : GitWorktree C R) (revision : R) :
    Except Failure (GitWorktree C R) :=
  match w.requireNoExternalFilters with
  | .error e => .error e
  | .ok () =>
    if revision ∉ w.commits then
      domainError "git_operation_failed" "the isolated Git operation failed"
    else .ok ((w.resetHard G revision).clean)

/-- `WorkspaceSnapshot` of a Git worktree. -/
structure GitSnapshot (R : Type) where
  id : String
  uri : String
  revision : R
  deriving DecidableEq

inductive SandboxKind where
  | isolated
  | podman
  deriving DecidableEq

def SandboxKind.limitText : SandboxKind → String
  | isolated => "the local snapshot retention limit has been reached"
  | podman => "the sandbox snapshot limit has been reached"

def SandboxKind.mismatchText : SandboxKind → String
  | isolated => "the snapshot does not match its retained immutable state"
  | podman => "the snapshot does not match retained immutable state"

/-- `LocalSandbox` and `PodmanSandbox`. -/
structure Sandbox (C R : Type) where
  kind : SandboxKind
  workspace : GitWorktree C R
  snapshots : List (GitSnapshot R) := []
  maxSnapshots : ℕ
  deriving DecidableEq

def snapshotOf (G : Git C R) (revision : R) : GitSnapshot R :=
  { id := "snapshot-" ++ ((G.name revision).take 16).toString
    uri := "git-worktree://local/" ++ G.name revision
    revision := revision }

def Sandbox.createSnapshot (G : Git C R) (s : Sandbox C R) (header : ℕ) :
    Except Failure (GitSnapshot R × Sandbox C R) :=
  match s.workspace.commitState G header with
  | .error e => .error e
  | .ok (revision, workspace) =>
    let snapshot := snapshotOf G revision
    match s.snapshots.find? (·.id = snapshot.id) with
    | some existing =>
      if existing ≠ snapshot then
        domainError "snapshot_identity_conflict"
          "the snapshot identifier conflicts with retained state"
      else .ok (snapshot, { s with workspace := workspace })
    | none =>
      if s.maxSnapshots ≤ s.snapshots.length then
        domainError "snapshot_limit" s.kind.limitText
      else
        .ok (snapshot, { s with workspace := workspace, snapshots := s.snapshots ++ [snapshot] })

def retainedThrough (id : String) : List (GitSnapshot R) → List (GitSnapshot R)
  | [] => []
  | x :: rest => if x.id = id then [x] else x :: retainedThrough id rest

/-- `LocalSandbox.restore_snapshot`, `PodmanSandbox.restore_snapshot`. -/
def Sandbox.restoreSnapshot (G : Git C R) (s : Sandbox C R) (snapshot : GitSnapshot R) :
    Except Failure (Sandbox C R) :=
  match s.snapshots.find? (·.id = snapshot.id) with
  | none => domainError "snapshot_not_found" "the snapshot is not owned by this sandbox"
  | some retained =>
    if retained ≠ snapshot then
      domainError "snapshot_identity_mismatch" s.kind.mismatchText
    else
      match s.workspace.restoreRevision G snapshot.revision with
      | .error e => .error e
      | .ok workspace =>
        .ok { s with
          workspace := workspace, snapshots := retainedThrough snapshot.id s.snapshots }

/-- `_OwnedSandbox`: a Podman sandbox whose snapshots are also uploaded as checkpoints. -/
structure OwnedSandbox (C R : Type) where
  sandbox : Sandbox C R
  localSnapshots : List (String × GitSnapshot R) := []
  deriving DecidableEq

/-- `_OwnedSandbox.create_snapshot` once archive and upload are done. -/
def OwnedSandbox.createSnapshot (G : Git C R) (s : OwnedSandbox C R) (header : ℕ)
    (id uri : String) : Except Failure (GitSnapshot R × OwnedSandbox C R) :=
  match s.sandbox.createSnapshot G header with
  | .error e => .error e
  | .ok (snapshot, sandbox) =>
    .ok ({ id := id, uri := uri, revision := snapshot.revision },
      { sandbox := sandbox, localSnapshots := (id, snapshot) :: s.localSnapshots })

def OwnedSandbox.restoreSnapshot (G : Git C R) (s : OwnedSandbox C R)
    (snapshot : GitSnapshot R) : Except Failure (OwnedSandbox C R) :=
  match s.localSnapshots.lookup snapshot.id with
  | none =>
    domainError "checkpoint_not_local" "the checkpoint is not owned by this sandbox attempt"
  | some retained =>
    if retained.revision ≠ snapshot.revision then
      domainError "checkpoint_not_local" "the checkpoint is not owned by this sandbox attempt"
    else
      match s.sandbox.restoreSnapshot G retained with
      | .error e => .error e
      | .ok sandbox => .ok { s with sandbox := sandbox }

def GitWorktree.Stageable (G : Git C R) (w : GitWorktree C R) : Prop :=
  ∀ f ∈ w.worktree, f.1 ∈ FileSet.paths w.index ∨ G.ignored w.worktree f.1 = false

instance (G : Git C R) (w : GitWorktree C R) : Decidable (w.Stageable G) :=
  inferInstanceAs (Decidable (∀ f ∈ w.worktree, _))

variable {header : ℕ} {snapshot : GitSnapshot R}

omit [DecidableEq R] in
theorem GitWorktree.commitState_tree (G : Git C R) {w w' : GitWorktree C R} {r : R}
    (h : w.commitState G header = .ok (r, w')) : G.treeOf r = (w.addAll G).index := by
  unfold commitState at h
  cases hf : w.requireNoExternalFilters with
  | error => rw [hf] at h; cases h
  | ok =>
    rw [hf] at h
    by_cases hc : (w.addAll G).statusClean G
    · simp only [hc, if_true, Except.ok.injEq, Prod.mk.injEq] at h
      rw [← h.1]
      exact (of_decide_eq_true hc).symm
    · simp only [hc, false_eq_true, if_false, Except.ok.injEq, Prod.mk.injEq] at h
      rw [← h.1]
      exact G.treeOf_commit _ _ _

omit [DecidableEq C] [DecidableEq R] in
theorem GitWorktree.addAll_index_eq_iff (G : Git C R) (w : GitWorktree C R) :
    (w.addAll G).index = w.worktree ↔ w.Stageable G :=
  Finset.filter_eq_self

omit [DecidableEq C] [DecidableEq R] in
theorem GitWorktree.mem_clean (w : GitWorktree C R) (f : String × C) :
    f ∈ w.clean.worktree ↔ f ∈ w.worktree ∧ f.1 ∈ FileSet.paths w.index :=
  Finset.mem_filter

omit [DecidableEq R] in
theorem GitWorktree.mem_resetHard (G : Git C R) (w : GitWorktree C R) (r : R) (f : String × C) :
    f ∈ (w.resetHard G r).worktree ↔ f ∈ G.treeOf r ∨ f ∈ w.worktree ∧
      f.1 ∉ FileSet.paths w.index ∧ f.1 ∉ FileSet.paths (G.treeOf r) := by
  unfold resetHard
  rw [Finset.mem_union, Finset.mem_filter]

omit [DecidableEq R] in
theorem GitWorktree.clean_resetHard (G : Git C R) (w : GitWorktree C R) (r : R) :
    ((w.resetHard G r).clean).worktree = G.treeOf r := by
  ext f
  rw [mem_clean, mem_resetHard]
  refine ⟨?_, fun hf => ⟨.inl hf, Finset.mem_image_of_mem Prod.fst hf⟩⟩
  rintro ⟨hf | ⟨_, _, hout⟩, hin⟩
  · exact hf
  · exact absurd hin hout

theorem GitWorktree.restoreRevision_worktree (G : Git C R) {w w' : GitWorktree C R} {r : R}
    (h : w.restoreRevision G r = .ok w') : w'.worktree = G.treeOf r := by
  unfold restoreRevision at h
  cases hf : w.requireNoExternalFilters with
  | error => rw [hf] at h; cases h
  | ok =>
    rw [hf] at h
    by_cases hg : r ∉ w.commits
    · simp only [if_pos hg] at h
      cases h
    · simp only [if_neg hg, Except.ok.injEq] at h
      rw [← h]
      exact w.clean_resetHard G r

theorem Sandbox.createSnapshot_tree (G : Git C R) {s s' : Sandbox C R}
    (h : s.createSnapshot G header = .ok (snapshot, s')) :
    G.treeOf snapshot.revision = (s.workspace.addAll G).index := by
  unfold createSnapshot at h
  cases hc : s.workspace.commitState G header with
  | error => rw [hc] at h; cases h
  | ok committed =>
    rw [hc] at h
    have ht := GitWorktree.commitState_tree G hc
    suffices hs : snapshot = snapshotOf G committed.1 by rw [hs]; exact ht
    cases hf : s.snapshots.find? (·.id = (snapshotOf G committed.1).id) with
    | none | some =>
      simp only [hf] at h
      split at h
      · cases h
      · cases h; rfl

theorem Sandbox.restoreSnapshot_worktree (G : Git C R) {s s' : Sandbox C R}
    (h : s.restoreSnapshot G snapshot = .ok s') :
    s'.workspace.worktree = G.treeOf snapshot.revision := by
  unfold restoreSnapshot at h
  cases hf : s.snapshots.find? (·.id = snapshot.id) with
  | none => rw [hf] at h; cases h
  | some =>
    simp only [hf] at h
    split at h
    · cases h
    cases hr : s.workspace.restoreRevision G snapshot.revision with
    | error => rw [hr] at h; cases h
    | ok =>
      rw [hr] at h
      cases h
      exact GitWorktree.restoreRevision_worktree G hr

theorem OwnedSandbox.restoreSnapshot_worktree (G : Git C R) {s s' : OwnedSandbox C R}
    (h : s.restoreSnapshot G snapshot = .ok s') :
    s'.sandbox.workspace.worktree = G.treeOf snapshot.revision := by
  unfold restoreSnapshot at h
  cases hf : s.localSnapshots.lookup snapshot.id with
  | none => rw [hf] at h; cases h
  | some retained =>
    simp only [hf] at h
    split at h
    · cases h
    rename_i hr
    cases hre : s.sandbox.restoreSnapshot G retained with
    | error => rw [hre] at h; cases h
    | ok =>
      rw [hre] at h
      cases h
      rw [← not_not.mp hr]
      exact Sandbox.restoreSnapshot_worktree G hre

theorem OwnedSandbox.createSnapshot_tree (G : Git C R) {s s' : OwnedSandbox C R} {id uri : String}
    (h : s.createSnapshot G header id uri = .ok (snapshot, s')) :
    G.treeOf snapshot.revision = (s.sandbox.workspace.addAll G).index := by
  unfold createSnapshot at h
  cases hc : s.sandbox.createSnapshot G header with
  | error => rw [hc] at h; cases h
  | ok =>
    rw [hc] at h
    have ht := Sandbox.createSnapshot_tree G hc
    cases h
    exact ht

/-- **Rollback is exact up to ignored files.** -/
theorem restoreSnapshot_exact_iff (G : Git C R) :
    (∀ (before created later restored : Sandbox C R) (header : ℕ) (snapshot : GitSnapshot R),
      before.createSnapshot G header = .ok (snapshot, created) →
      later.restoreSnapshot G snapshot = .ok restored →
      (restored.workspace.worktree = before.workspace.worktree ↔ before.workspace.Stageable G)) ∧
    (∀ (before created later restored : OwnedSandbox C R) (header : ℕ) (id uri : String)
      (snapshot : GitSnapshot R), before.createSnapshot G header id uri = .ok (snapshot, created) →
      later.restoreSnapshot G snapshot = .ok restored →
      (restored.sandbox.workspace.worktree = before.sandbox.workspace.worktree ↔
        before.sandbox.workspace.Stageable G)) := by
  refine ⟨?_, ?_⟩
  · intro before created later restored header snapshot hcreate hrestore
    rw [Sandbox.restoreSnapshot_worktree G hrestore, Sandbox.createSnapshot_tree G hcreate]
    exact before.workspace.addAll_index_eq_iff G
  · intro before created later restored header id uri snapshot hcreate hrestore
    rw [OwnedSandbox.restoreSnapshot_worktree G hrestore,
      OwnedSandbox.createSnapshot_tree G hcreate]
    exact before.sandbox.workspace.addAll_index_eq_iff G

section Examples

def dotEnvGit : Git String (FileSet String) where
  ignored _ path := path = ".env"
  commit tree _ _ := tree
  treeOf := id
  name _ := "0f4c"
  treeOf_commit _ _ _ := rfl

def sandboxWith (files : FileSet String) : Sandbox String (FileSet String) :=
  { kind := .isolated
    workspace := { worktree := files, index := ∅, head := ∅, commits := [∅] }
    maxSnapshots := 8 }

def snapshotWith (files : FileSet String) : GitSnapshot (FileSet String) :=
  snapshotOf dotEnvGit ((sandboxWith files).workspace.addAll dotEnvGit).index

def sandboxAfter (files : FileSet String) : Sandbox String (FileSet String) :=
  let staged := (sandboxWith files).workspace.addAll dotEnvGit
  { sandboxWith files with
    workspace := staged.commitIndex dotEnvGit 0, snapshots := [snapshotWith files] }

def sandboxEmptied (files : FileSet String) : Sandbox String (FileSet String) :=
  { sandboxAfter files with workspace := { (sandboxAfter files).workspace with worktree := ∅ } }

def sandboxRestored (files : FileSet String) : Sandbox String (FileSet String) :=
  { sandboxAfter files with
    workspace := { (sandboxAfter files).workspace with worktree := (snapshotWith files).revision } }

def owned (files : FileSet String) (s : Sandbox String (FileSet String)) :
    OwnedSandbox String (FileSet String) :=
  { sandbox := s, localSnapshots := [("c1", snapshotWith files)] }

def sourceFiles : FileSet String := {("main.py", "print()")}

theorem restoreSnapshot_exact_sources :
    (sandboxRestored sourceFiles).workspace.worktree = sourceFiles ∧
      (owned sourceFiles (sandboxRestored sourceFiles)).sandbox.workspace.worktree =
        sourceFiles := by
  have hiff := restoreSnapshot_exact_iff dotEnvGit
  have hlocal := hiff.1 (sandboxWith sourceFiles) (sandboxAfter sourceFiles)
    (sandboxEmptied sourceFiles) (sandboxRestored sourceFiles) 0 (snapshotWith sourceFiles)
    (by decide +kernel) (by decide +kernel)
  have howned := hiff.2 { sandbox := sandboxWith sourceFiles }
    (owned sourceFiles (sandboxAfter sourceFiles)) (owned sourceFiles (sandboxEmptied sourceFiles))
    (owned sourceFiles (sandboxRestored sourceFiles)) 0 "c1" "s3://checkpoints/c1"
    ⟨"c1", "s3://checkpoints/c1", (snapshotWith sourceFiles).revision⟩
    (by decide +kernel) (by decide +kernel)
  exact ⟨hlocal.mpr (by decide +kernel), howned.mpr (by decide +kernel)⟩

def mixedFiles : FileSet String := {("main.py", "print()"), (".env", "TOKEN=1")}

theorem restoreSnapshot_not_exact :
    ¬ ∀ (before created later restored : Sandbox String (FileSet String))
        (snapshot : GitSnapshot (FileSet String)),
      before.createSnapshot dotEnvGit 0 = .ok (snapshot, created) →
      later.restoreSnapshot dotEnvGit snapshot = .ok restored →
      restored.workspace.worktree = before.workspace.worktree := by
  intro hexact
  have hsame := hexact (sandboxWith mixedFiles) (sandboxAfter mixedFiles)
    (sandboxEmptied mixedFiles) (sandboxRestored mixedFiles) (snapshotWith mixedFiles)
    (by decide +kernel) (by decide +kernel)
  exact absurd hsame (by decide +kernel)

end Examples

end AgentPlatform
