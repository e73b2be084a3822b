/-
**The atomic write of a workspace file.**

`RootedWorkspace.write_file_atomic` reads the file it replaces, stages the new content under a
random name in the same directory and installs it with `link`, `rename` and `unlink`. The names of
the directory are a map to inodes, so that a hard link is a second name of one inode; at most one
call of staging, install, rollback and cleanup fails, at a position chosen from outside.

Main definitions:
- `Os.Leads`: what code does with and without a fault; its rules follow the code.
- `FileWrite.writeFileAtomic`: the write, with the errors it raises.
- `FileWrite.Atomic`: the new file or the old directory, and success without a fault.

Main results:
- `write_file_atomic_iff`: the directories in which a write is atomic.
-/

import AgentPlatform.DomainValues

namespace AgentPlatform

open Function (update)

/-- What `os.open(name, O_RDONLY | O_NOFOLLOW)` and `fstat` make of an entry. -/
inductive FileKind where
  /-- `open` raises: a symbolic link, or a file that may not be read. -/
  | unopened
  | regular
  /-- A directory, a device. -/
  | special
  deriving DecidableEq

structure Inode where
  number : ℕ
  content : List UInt8
  mode : ℕ
  kind : FileKind := .regular
  deriving DecidableEq

inductive OsError where
  | fileNotFound | fileExists | io
  deriving DecidableEq

abbrev Names := String → Option Inode

structure Disk where
  names : Names
  fault : Option ℕ

/-- Code that can raise an `OSError`. -/
abbrev Os := EStateM OsError Disk Unit

namespace Os

def create (name : String) (number : ℕ) (d : Names) : Except OsError Names :=
  if (d name).isSome then .error .fileExists
  else .ok (update d name (some { number := number, content := [], mode := 0o600 }))

/-- A write or `fchmod` through a descriptor of the inode. -/
def modify (number : ℕ) (f : Inode → Inode) (d : Names) : Except OsError Names :=
  .ok fun n => (d n).map fun i => if i.number = number then f i else i

def link (src dst : String) (d : Names) : Except OsError Names :=
  match d src, d dst with
  | none, _ => .error .fileNotFound
  | some _, some _ => .error .fileExists
  | some i, none => .ok (update d dst (some i))

def replace (src dst : String) (d : Names) : Except OsError Names :=
  match d src with
  | none => .error .fileNotFound
  | some i =>
    if (d dst).map Inode.number = some i.number then .ok d
    else .ok (update (update d dst (some i)) src none)

def unlink (name : String) (d : Names) : Except OsError Names :=
  if (d name).isSome then .ok (update d name none) else .error .fileNotFound

def sync (d : Names) : Except OsError Names := .ok d

def call (op : Names → Except OsError Names) : Os := fun s =>
  match s.fault with
  | some 0 => .error .io { s with fault := none }
  | k =>
    match op s.names with
    | .error e => .error e { s with fault := k.map Nat.pred }
    | .ok d => .ok () { names := d, fault := k.map Nat.pred }

def suppress (x : Os) : Os := fun s =>
  match x s with
  | .ok _ s' | .error _ s' => .ok () s'

def rescue (x handler : Os) : Os := fun s =>
  match x s with
  | .ok _ s' => .ok () s'
  | .error e s' =>
    match handler s' with
    | .ok _ s'' | .error _ s'' => .error e s''

/-- The code leads from `d` to `c`, unless a call of it fails. -/
def Leads (x : Os) (d c : Names) (Q : Names → Prop) : Prop :=
  ∀ f, (∃ f', x ⟨d, f⟩ = .ok () ⟨c, f'⟩ ∧ (f = none → f' = none)) ∨
    f ≠ none ∧ ∃ e, x ⟨d, f⟩ = .error .io ⟨e, none⟩ ∧ Q e

/-- Without a fault the handler leads from `Q` to `R`. -/
def Settles (x : Os) (Q R : Names → Prop) : Prop :=
  ∀ d, Q d → ∃ e, x ⟨d, none⟩ = .ok () ⟨e, none⟩ ∧ R e

variable {x y : Os} {d c b : Names} {Q R : Names → Prop}

theorem Leads.call {op : Names → Except OsError Names} (h : op d = .ok c) (hq : Q d) :
    Leads (call op) d c Q := by
  rintro (_ | _ | n)
  · exact .inl ⟨none, by simp [Os.call, h], fun _ => rfl⟩
  · exact .inr ⟨by simp, d, rfl, hq⟩
  · exact .inl ⟨some n, by simp [Os.call, h], by simp⟩

theorem Leads.bind (hx : Leads x d c Q) (hy : Leads y c b Q) :
    Leads (do x; y) d b Q := by
  intro f
  rcases hx f with ⟨f', hok, hf⟩ | ⟨hf, e, he, hq⟩
  · have hb : (do x; y : Os) ⟨d, f⟩ = y ⟨c, f'⟩ := by
      simp only [Bind.bind, EStateM.bind, hok]
    rw [hb]
    rcases hy f' with ⟨f'', hok', hf'⟩ | ⟨hne, hrest⟩
    · exact .inl ⟨f'', hok', fun h => hf' (hf h)⟩
    · exact .inr ⟨fun h => hne (hf h), hrest⟩
  · exact .inr ⟨hf, e, by simp only [Bind.bind, EStateM.bind, he], hq⟩

theorem Leads.rescue (hx : Leads x d c Q) (hh : Settles y Q R) :
    Leads (rescue x y) d c R := by
  intro f
  rcases hx f with ⟨f', hok, hf⟩ | ⟨hf, e, he, hq⟩
  · exact .inl ⟨f', by simp only [Os.rescue, hok], hf⟩
  · obtain ⟨e', he', hr⟩ := hh e hq
    exact .inr ⟨hf, e', by simp only [Os.rescue, he, he'], hr⟩

theorem rescue_raises {s t : Disk} {e : OsError} (h : x s = .error e t) :
    ∃ u, rescue x y s = .error e u := by
  unfold rescue
  rw [h]
  dsimp only
  split <;> exact ⟨_, rfl⟩

end Os

/-- A call of `write_file_atomic`. -/
structure FileWrite where
  path : String
  name : String
  temporary : String
  backup : String
  number : ℕ
  pieces : List (List UInt8)
  mode : Option ℕ := none
  requireAbsent : Bool := false
  maxFileBytes : ℕ := 4 * 1024 * 1024

namespace FileWrite

open Os

def writeAll (number : ℕ) : List (List UInt8) → Os
  | [] => pure ()
  | piece :: rest => do
    call (modify number fun i => { i with content := i.content ++ piece })
    writeAll number rest

variable (w : FileWrite)

def stageFromParentDescriptor (mode : Option ℕ) : Os := do
  call (create w.temporary w.number)
  rescue
    (do
      writeAll w.number w.pieces
      match mode with
      | some m => call (modify w.number fun i => { i with mode := m })
      | none => pure ()
      call sync
      call sync)
    (do
      suppress (call sync)
      suppress (call (unlink w.temporary)))

def rollbackStagedInstall (backup : Option String) (removeCreated : Bool) : Os :=
  suppress do
    match backup with
    | some backup => call (replace backup w.name)
    | none => if removeCreated then call (unlink w.name) else pure ()
    call sync

def installStagedFile : Os :=
  if w.requireAbsent then do
    rescue (call (link w.temporary w.name)) (w.rollbackStagedInstall none false)
    rescue
      (do
        call (unlink w.temporary)
        call sync)
      (w.rollbackStagedInstall none true)
  else
    rescue
      (do
        call (link w.name w.backup)
        call (replace w.temporary w.name)
        call sync
        call (unlink w.backup))
      (do
        w.rollbackStagedInstall (some w.backup) false
        suppress (call (unlink w.backup)))

/-- `_workspace_error`. -/
def workspaceError (code message : String) : ErrorDetail where
  code := code
  message := message
  details := .ofList [("path", .str w.path)]

def createConflict : ErrorDetail :=
  w.workspaceError "edit_create_conflict" "the new-file destination already exists"

def writeFailed : ErrorDetail :=
  w.workspaceError "workspace_write_failed" "the workspace file could not be written atomically"

def readExistingForWrite (existing : Option Inode) : Except ErrorDetail (Option Inode) :=
  match existing with
  | none => .ok none
  | some i =>
    match i.kind with
    | .unopened =>
      .error (w.workspaceError "workspace_path_invalid"
        "the destination changed while it was being opened")
    | .special =>
      .error (w.workspaceError "workspace_not_file" "only regular workspace files can be replaced")
    | .regular =>
      if w.maxFileBytes < i.content.length then
        .error (w.workspaceError "workspace_file_too_large"
          "the workspace file exceeds the configured size limit")
      else .ok (some i)

/-- The file can be read before it is replaced. -/
def Replaceable (i : Inode) : Prop := i.kind = .regular ∧ i.content.length ≤ w.maxFileBytes

def writeFileAtomic (s : Disk) : Except ErrorDetail Unit × Disk :=
  match w.readExistingForWrite (s.names w.name) with
  | .error e => (.error e, s)
  | .ok existing =>
  if w.requireAbsent && existing.isSome then (.error w.createConflict, s)
  else
    match w.stageFromParentDescriptor (existing.elim w.mode fun i => some i.mode) s with
    | .error _ s' => (.error w.writeFailed, s')
    | .ok _ s' =>
      match rescue w.installStagedFile (suppress (call (unlink w.temporary))) s' with
      | .ok _ s'' => (.ok (), s'')
      | .error e s'' =>
        let conflict := w.requireAbsent && e = .fileExists
        (.error (if conflict then w.createConflict else w.writeFailed), s'')

structure Fresh (d : Names) : Prop where
  temporary : d w.temporary = none
  backup : d w.backup = none
  temporary_ne : w.temporary ≠ w.name
  backup_ne : w.backup ≠ w.name
  distinct : w.temporary ≠ w.backup
  number : ∀ n i, d n = some i → i.number ≠ w.number

def written (d : Names) : Inode where
  number := w.number
  content := w.pieces.flatten
  mode := ((d w.name).elim w.mode fun i => some i.mode).getD 0o600

def Atomic (d : Names) : Prop :=
  (∀ fault, ∃ s, w.writeFileAtomic ⟨d, fault⟩ =
      (.ok (), ⟨update d w.name (some (w.written d)), s⟩) ∨
    ∃ e, w.writeFileAtomic ⟨d, fault⟩ = (.error e, ⟨d, s⟩)) ∧
  ((w.requireAbsent && (d w.name).isSome) = false → (w.writeFileAtomic ⟨d, none⟩).1 = .ok ())

variable {w} {d : Names}

theorem readExistingForWrite_ok_iff {existing : Option Inode} :
    w.readExistingForWrite existing = .ok existing ↔ ∀ i ∈ existing, w.Replaceable i := by
  cases existing with
  | none => simp [readExistingForWrite]
  | some i =>
    simp only [readExistingForWrite, Option.mem_some_iff, forall_eq', Replaceable]
    cases i.kind <;> simp

theorem readExistingForWrite_cases (existing : Option Inode) :
    w.readExistingForWrite existing = .ok existing ∨
      ∃ e, w.readExistingForWrite existing = .error e := by
  cases h : w.readExistingForWrite existing with
  | error e => exact .inr ⟨e, rfl⟩
  | ok r =>
    refine .inl (congrArg Except.ok ?_)
    unfold readExistingForWrite at h
    split at h
    · exact (Except.ok.inj h).symm
    · split at h
      · cases h
      · cases h
      · split at h
        · cases h
        · exact (Except.ok.inj h).symm

theorem Fresh.modify (hw : w.Fresh d) (i : Inode) (hi : i.number = w.number) (f : Inode → Inode) :
    Os.modify w.number f (update d w.temporary (some i)) =
      .ok (update d w.temporary (some (f i))) := by
  refine congrArg Except.ok (funext fun n => ?_)
  by_cases hn : n = w.temporary
  · subst hn
    simp [hi]
  · cases hd : d n with
    | none => simp [hn, hd]
    | some j => simp [hn, hd, hw.number n j hd]

def Staged (w : FileWrite) (d e : Names) : Prop :=
  ∃ i, e = update d w.temporary (some i)

theorem Fresh.writeAll (hw : w.Fresh d) (pieces : List (List UInt8)) (i : Inode)
    (hi : i.number = w.number) :
    Leads (writeAll w.number pieces) (update d w.temporary (some i))
      (update d w.temporary (some { i with content := i.content ++ pieces.flatten }))
      (w.Staged d) := by
  induction pieces generalizing i with
  | nil => exact fun f => .inl ⟨f, by simp [FileWrite.writeAll, pure, EStateM.pure], id⟩
  | cons piece rest ih =>
    have hm := hw.modify i hi fun i => { i with content := i.content ++ piece }
    have hrest := ih { i with content := i.content ++ piece } hi
    rw [List.append_assoc] at hrest
    exact (Leads.call hm ⟨i, rfl⟩).bind hrest

theorem update_none {name : String} (h : d name = none) : update d name none = d := by
  rw [← h, Function.update_eq_self]

theorem Fresh.removeStaged (hw : w.Fresh d) (i : Option Inode) :
    suppress (call (unlink w.temporary)) ⟨update d w.temporary i, none⟩ =
      .ok () ⟨d, none⟩ := by
  cases i <;> simp [suppress, call, unlink, update_none hw.temporary]

theorem Fresh.stage (hw : w.Fresh d) (mode : Option ℕ) :
    Leads (w.stageFromParentDescriptor mode) d
      (update d w.temporary (some ⟨w.number, w.pieces.flatten, mode.getD 0o600, .regular⟩))
      (· = d) := by
  refine Leads.bind (Leads.call (c := update d w.temporary
    (some ⟨w.number, [], 0o600, .regular⟩)) (by simp [create, hw.temporary]) rfl) ?_
  refine Leads.rescue (Q := w.Staged d) ?_ ?_
  · refine (hw.writeAll w.pieces _ rfl).bind ?_
    cases mode with
    | none => exact (Leads.call rfl ⟨_, rfl⟩).bind (Leads.call rfl ⟨_, rfl⟩)
    | some m =>
      refine Leads.bind (Leads.call (hw.modify _ rfl _) ⟨_, rfl⟩) ?_
      exact (Leads.call rfl ⟨_, rfl⟩).bind (Leads.call rfl ⟨_, rfl⟩)
  · rintro _ ⟨i, rfl⟩
    exact ⟨d, hw.removeStaged (some i), rfl⟩

def RolledBack (w : FileWrite) (d : Names) (i : Inode) (e : Names) : Prop :=
  e = d ∨ e = update d w.temporary (some i)

theorem Fresh.installAbsent (hw : w.Fresh d) (i : Inode) (hn : d w.name = none)
    (ha : w.requireAbsent) :
    Leads w.installStagedFile (update d w.temporary (some i))
      (update d w.name (some i)) (w.RolledBack d i) := by
  have ht := hw.temporary
  have hne := hw.temporary_ne
  simp only [installStagedFile, ha, if_true]
  refine Leads.bind (c := update (update d w.temporary (some i)) w.name
    (some i)) ?_ ?_
  · refine Leads.rescue (Q := (· = update d w.temporary (some i)))
      (Leads.call (by simp [link, hne.symm, hn]) rfl) ?_
    rintro _ rfl
    exact ⟨_, rfl, .inr rfl⟩
  · have hlinked : update (update (update d w.temporary (some i))
        w.name (some i)) w.temporary none = update d w.name (some i) := by
      rw [update_comm hne.symm, update_idem, update_none ht]
    refine Leads.rescue (Q := fun e => e = update d w.name (some i) ∨
        e = update (update d w.temporary (some i)) w.name (some i))
      (Leads.bind (Leads.call (c := update d w.name (some i)) ?_ (.inr rfl))
        (Leads.call rfl (.inl rfl))) ?_
    · simp [unlink, hne, hlinked]
    · rintro _ (rfl | rfl)
      · exact ⟨d, by simp [rollbackStagedInstall, suppress, call, unlink, sync, bind, EStateM.bind,
          update_none hn], .inl rfl⟩
      · refine ⟨_, ?_, .inr rfl⟩
        have hback : update (update d w.temporary (some i)) w.name none =
            update d w.temporary (some i) := update_none (by simp [hne.symm, hn])
        simp [rollbackStagedInstall, suppress, call, unlink, sync, bind, EStateM.bind, hback]

theorem Fresh.installExisting (hw : w.Fresh d) {i o : Inode} (hi : i.number = w.number)
    (hn : d w.name = some o) (ha : w.requireAbsent = false) :
    Leads w.installStagedFile (update d w.temporary (some i))
      (update d w.name (some i)) (w.RolledBack d i) := by
  have ht := hw.temporary
  have hb := hw.backup
  have hne := hw.temporary_ne
  have hbn := hw.backup_ne
  have htb := hw.distinct
  have hnum : o.number ≠ i.number := hi ▸ hw.number _ _ hn
  simp only [installStagedFile, ha, false_eq_true, if_false]
  refine Leads.rescue (Q := fun e => e = update d w.temporary (some i) ∨
      e = update (update d w.temporary (some i)) w.backup (some o) ∨
      e = update (update d w.backup (some o)) w.name (some i))
    (Leads.bind (Leads.call ?_ (.inl rfl)) (Leads.bind (Leads.call ?_ (.inr (.inl rfl)))
      (Leads.bind (Leads.call rfl (.inr (.inr rfl))) (Leads.call ?_ (.inr (.inr rfl)))))) ?_
  · simp [link, hne.symm, hn, htb.symm, hb]
  · have hmoved : update (update (update (update d
        w.temporary (some i)) w.backup (some o)) w.name (some i)) w.temporary none =
        update (update d w.backup (some o)) w.name (some i) := by
      rw [update_comm hne.symm, update_comm htb.symm, update_idem,
        update_none ht]
    simp [replace, htb, hbn.symm, hne.symm, hn, hnum, hmoved]
  · have hgone : update (update (update d w.backup (some o)) w.name
        (some i)) w.backup none = update d w.name (some i) := by
      rw [update_comm hbn.symm, update_idem, update_none hb]
    simp [unlink, hbn, hgone]
  · rintro _ (rfl | rfl | rfl)
    · exact ⟨_, by simp [rollbackStagedInstall, suppress, call, replace, unlink, bind, EStateM.bind,
        htb.symm, hb], .inr rfl⟩
    · have hgone : update (update d w.temporary (some i)) w.backup none =
          update d w.temporary (some i) := update_none (by simp [htb.symm, hb])
      exact ⟨_, by simp [rollbackStagedInstall, suppress, call, replace, unlink, sync, bind,
        EStateM.bind, hbn.symm, hne.symm, hn, hgone], .inr rfl⟩
    · have hback : update (update (update d w.backup (some o)) w.name
          (some o)) w.backup none = d := by
        rw [update_comm hbn.symm, update_idem, update_none hb, ← hn,
          Function.update_eq_self]
      exact ⟨d, by simp [rollbackStagedInstall, suppress, call, replace, unlink, sync, bind,
        EStateM.bind, hbn, hnum.symm, hback, hb], .inl rfl⟩

theorem Fresh.atomic (hw : w.Fresh d) (hread : ∀ i ∈ d w.name, w.Replaceable i) (hc : (w.requireAbsent && (d w.name).isSome) = false)
    (hinstall : Leads w.installStagedFile (update d w.temporary (some (w.written d)))
      (update d w.name (some (w.written d))) (w.RolledBack d (w.written d))) : w.Atomic d := by
  have hclean : Settles (suppress (call (unlink w.temporary)))
      (w.RolledBack d (w.written d)) (· = d) := by
    rintro _ (rfl | rfl)
    · have h := hw.removeStaged none
      rw [update_none hw.temporary] at h
      exact ⟨_, h, rfl⟩
    · exact ⟨d, hw.removeStaged _, rfl⟩
  have hstage : Leads (w.stageFromParentDescriptor ((d w.name).elim w.mode fun i => some i.mode)) d
      (update d w.temporary (some (w.written d))) (· = d) := hw.stage _
  have hrun : ∀ fault, (∃ s, w.writeFileAtomic ⟨d, fault⟩ =
        (.ok (), ⟨update d w.name (some (w.written d)), s⟩)) ∨
      fault ≠ none ∧ ∃ e s, w.writeFileAtomic ⟨d, fault⟩ = (.error e, ⟨d, s⟩) := by
    intro fault
    simp only [writeFileAtomic, readExistingForWrite_ok_iff.2 hread, hc, false_eq_true, if_false]
    rcases hstage fault with ⟨f, hs, hf⟩ | ⟨hf, _, hs, rfl⟩
    · rw [hs]
      dsimp only
      rcases hinstall.rescue hclean f with ⟨f', hi, -⟩ | ⟨hf', _, hi, rfl⟩
      · exact .inl ⟨f', by rw [hi]⟩
      · exact .inr ⟨fun h => hf' (hf h), w.writeFailed, none, by rw [hi]; simp⟩
    · exact .inr ⟨hf, w.writeFailed, none, by rw [hs]⟩
  refine ⟨fun fault => ?_, fun _ => ?_⟩
  · rcases hrun fault with ⟨s, h⟩ | ⟨-, e, s, h⟩
    · exact ⟨s, .inl h⟩
    · exact ⟨s, .inr ⟨e, h⟩⟩
  · rcases hrun none with ⟨s, h⟩ | ⟨h, -⟩
    · rw [h]
    · exact absurd rfl h

theorem Fresh.raises (hw : w.Fresh d) (hn : d w.name = none) (ha : w.requireAbsent = false) :
    (w.writeFileAtomic ⟨d, none⟩).1 = .error w.writeFailed := by
  have hstage : Leads (w.stageFromParentDescriptor w.mode) d _ _ := hw.stage _
  obtain ⟨f, hs, hf⟩ | ⟨hf, -⟩ := hstage none
  · obtain rfl := hf rfl
    let i : Inode := ⟨w.number, w.pieces.flatten, w.mode.getD 0o600, .regular⟩
    have hlink : call (link w.name w.backup) ⟨update d w.temporary (some i), none⟩ =
        .error .fileNotFound ⟨update d w.temporary (some i), none⟩ := by
      simp [call, link, hw.temporary_ne.symm, hn]
    have hinstall : ∃ s, w.installStagedFile ⟨update d w.temporary (some i), none⟩ =
        .error .fileNotFound s := by
      simp only [installStagedFile, ha, false_eq_true, if_false]
      exact rescue_raises (t := ⟨update d w.temporary (some i), none⟩)
        (by simp only [bind, EStateM.bind, hlink])
    obtain ⟨s, hs'⟩ := hinstall
    obtain ⟨s', hi⟩ := rescue_raises (y := suppress (call (unlink w.temporary))) hs'
    simp [writeFileAtomic, readExistingForWrite, hn, ha, hs, hi, i]
  · exact absurd rfl hf

end FileWrite

/-- **Writes are atomic for files that can be read, and for creations.** -/
theorem write_file_atomic_iff (w : FileWrite) (d : Names) (hw : w.Fresh d) :
    w.Atomic d ↔ (∃ i, d w.name = some i ∧ w.Replaceable i) ∨ w.requireAbsent = true := by
  constructor
  · intro h
    by_contra hno
    obtain ⟨hn, ha⟩ := not_or.1 hno
    rw [not_eq_true] at ha
    have hok := h.2 (by simp [ha])
    cases hd : d w.name with
    | none =>
      rw [hw.raises hd ha] at hok
      cases hok
    | some i =>
      obtain hread | ⟨e, he⟩ := w.readExistingForWrite_cases (some i)
      · exact hn ⟨i, hd, FileWrite.readExistingForWrite_ok_iff.1 hread i rfl⟩
      · simp [FileWrite.writeFileAtomic, hd, he] at hok
  · intro h
    cases hn : d w.name with
    | some o =>
      cases ha : w.requireAbsent with
      | true =>
        have hrun : ∃ e, ∀ s, w.writeFileAtomic ⟨d, s⟩ = (.error e, ⟨d, s⟩) := by
          obtain hread | ⟨e, he⟩ := w.readExistingForWrite_cases (some o)
          · exact ⟨w.createConflict, by simp [FileWrite.writeFileAtomic, ha, hn, hread]⟩
          · exact ⟨e, by simp [FileWrite.writeFileAtomic, hn, he]⟩
        obtain ⟨e, hrun⟩ := hrun
        exact ⟨fun s => ⟨s, .inr ⟨e, hrun s⟩⟩, by simp [ha, hn]⟩
      | false =>
        obtain ⟨i, hi, hread⟩ | habs := h
        · exact hw.atomic (by simpa [hi] using hread) (by simp [ha]) (hw.installExisting rfl hn ha)
        · rw [ha] at habs
          cases habs
    | none =>
      have ha : w.requireAbsent := by simpa [hn] using h
      exact hw.atomic (by simp [hn]) (by simp [hn]) (hw.installAbsent _ hn ha)

/-- A write of two pieces to `a`. -/
def writeOfA : FileWrite where
  path := "a"
  name := "a"
  temporary := ".agent-edit-0"
  backup := ".agent-backup-0"
  number := 2
  pieces := [[1], [2, 3]]

/-- A directory in which only `a` is. -/
def onlyA : Names := update (fun _ => none) "a" (some ⟨1, [0], 0o644, .regular⟩)

theorem write_file_atomic_existing : writeOfA.Atomic onlyA := by
  have hw : writeOfA.Fresh onlyA := by
    refine ⟨by decide, by decide, by decide, by decide, by decide, fun n i h => ?_⟩
    by_cases hn : n = "a"
    · subst hn
      cases h
      decide
    · simp [onlyA, hn] at h
  exact (write_file_atomic_iff writeOfA onlyA hw).2 (.inl ⟨_, rfl, rfl, by decide⟩)

theorem write_file_new_raises : (writeOfA.writeFileAtomic ⟨fun _ => none, none⟩).1 =
      .error writeOfA.writeFailed ∧ ¬ writeOfA.Atomic fun _ => none := by
  have hw : writeOfA.Fresh fun _ => none :=
    ⟨rfl, rfl, by decide, by decide, by decide, fun _ _ h => by cases h⟩
  have hraises := hw.raises rfl rfl
  refine ⟨hraises, fun h => ?_⟩
  have hok := h.2 rfl
  rw [hraises] at hok
  cases hok

end AgentPlatform
