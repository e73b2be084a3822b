/-
**Validating and unpacking a source archive.**
-/

import AgentPlatform.DomainValues
import AgentPlatform.PosixFiles

namespace AgentPlatform

open PosixFiles (FileSystem Errno)

abbrev Bytes := List UInt8

def pathError {α : Type} (code message : String) (path : Option String) : Except Failure α :=
  domainError code message false
    (.ofList (path.toList.map fun p => ("path", Json.str p)))

def normalizeWorkspacePath (text : String) : Except Failure (List String) :=
  if text = "" ∨ '\x00' ∈ text.toList ∨ 4096 < text.utf8ByteSize then
    pathError "workspace_path_invalid" "workspace paths must be non-empty bounded text" (some text)
  else if PosixFiles.isAbsolute text ∨ ".." ∈ PosixFiles.parts text then
    pathError "workspace_path_invalid" "workspace paths must remain relative" (some text)
  else .ok (PosixFiles.parts text)

def sensitiveDirectoryComponents : List String := [".ssh", ".aws", ".azure", ".gnupg"]

def sensitiveFilenames : List String :=
  [".npmrc", ".pypirc", ".netrc", "id_rsa", "id_dsa", "id_ecdsa", "id_ed25519",
    "application_default_credentials.json"]

def safeEnvSuffixes : List String := [".example", ".sample", ".template"]

def sensitiveFilename (name : String) : Bool :=
  decide (name ∈ sensitiveFilenames) || decide (name = ".env") ||
    (".env.".toList.isPrefixOf name.toList &&
      !safeEnvSuffixes.any fun s => s.toList.isSuffixOf name.toList)

def sensitiveParts (folded : List String) : Bool :=
  (folded.any fun p => decide (p ∈ sensitiveDirectoryComponents)) ||
    ((folded.zip folded.tail).any fun p => decide (p = (".config", "gcloud"))) ||
    folded.getLast?.any sensitiveFilename

structure WorkspaceAccessPolicy where
  casefold : String → String
  allowlistedFiles : List (List String) := []
  allowlistedDirectories : List (List String) := []

def WorkspaceAccessPolicy.isRepositoryMetadata (p : WorkspaceAccessPolicy) (path : List String) :
    Bool :=
  (path.map p.casefold).any fun part => decide (part = ".git")

def WorkspaceAccessPolicy.isProtected (p : WorkspaceAccessPolicy) (path : List String) : Bool :=
  let folded := path.map p.casefold
  p.isRepositoryMetadata path ||
    (sensitiveParts folded && !decide (folded ∈ p.allowlistedFiles) &&
      !p.allowlistedDirectories.any fun d => d.isPrefixOf folded)

inductive MemberKind where
  | directory | symlink | file | other
  deriving DecidableEq

/-- A tar member; `chunks` are the bytes as they are read. -/
structure TarMember where
  name : String
  kind : MemberKind
  linkname : String := ""
  mode : ℕ := 0
  size : ℕ := 0
  chunks : List Bytes := []
  deriving DecidableEq

inductive SnapshotEntry where
  | directory
  | symlink (linkTarget : String)
  | file (mode sizeBytes : ℕ) (sha256 : String)
  deriving DecidableEq

structure SnapshotManifestEntry where
  path : List String
  entry : SnapshotEntry
  chunks : List Bytes
  deriving DecidableEq

def TarMember.rawPath (m : TarMember) : String :=
  if m.kind = .directory ∧ m.name.toList.getLast? = some '/' then
    String.ofList m.name.toList.dropLast
  else m.name

def normalizeMemberPath (m : TarMember) : Except Failure (Option (List String)) :=
  if m.kind = .directory ∧ (m.rawPath = "" ∨ m.rawPath = ".") then .ok none
  else
    match normalizeWorkspacePath m.rawPath with
    | .error _ =>
      pathError "snapshot_path_invalid" "source archive contains an invalid path" none
    | .ok path =>
      if PosixFiles.asPosix path ≠ m.rawPath then
        pathError "snapshot_path_invalid" "source archive paths must be canonical"
          (some (PosixFiles.asPosix path))
      else .ok (some path)

/-- The walk of a link target on the text of paths. -/
def lexicalWalk : List String → List String → Option (List String)
  | place, [] => some place
  | place, c :: rest =>
    if c = ".." then
      if place = [] then none else lexicalWalk place.dropLast rest
    else lexicalWalk (place ++ [c]) rest

def containedLinkTarget (path : List String) (rawTarget : String) :
    Except Failure (List String) :=
  let invalid := pathError "snapshot_symlink_invalid" "source archive symlink target is invalid"
    (some (PosixFiles.asPosix path))
  let escape := pathError "snapshot_symlink_escape" "source archive symlink escapes the workspace"
    (some (PosixFiles.asPosix path))
  if rawTarget = "" ∨ '\x00' ∈ rawTarget.toList then invalid
  else if PosixFiles.isAbsolute rawTarget then escape
  else
    match lexicalWalk path.dropLast (PosixFiles.parts rawTarget) with
    | none => escape
    | some [] => invalid
    | some target => .ok target

structure SnapshotValidator where
  policy : WorkspaceAccessPolicy
  containsSecret : List String → Bytes → Bool
  sha256 : Bytes → String
  maxCompressedBytes : ℕ
  maxExpandedBytes : ℕ
  maxFileBytes : ℕ
  maxEntries : ℕ
  overdue : ℕ → ℕ → Bool

namespace SnapshotValidator

variable (v : SnapshotValidator)

def requireTime (member reading : ℕ) : Except Failure Unit :=
  if v.overdue member reading then
    pathError "snapshot_timeout" "source archive validation timed out" none
  else .ok ()

def requireAccessible (path : List String) : Except Failure Unit :=
  if v.policy.isProtected path then
    pathError
      (if v.policy.isRepositoryMetadata path then "snapshot_metadata_protected"
        else "snapshot_path_protected")
      "source archive contains a protected path" (some (PosixFiles.asPosix path))
  else .ok ()

/-- The loop of `_hash_file`; `hashed` is what `digest.update` was given so far. -/
def hashFile (path : List String) (declaredSize member : ℕ) :
    ℕ → ℕ → Bytes → Bytes → List Bytes → Except Failure String
  | _, observed, _, hashed, [] =>
    if observed ≠ declaredSize then
      pathError "snapshot_file_size_mismatch"
        "source archive file size does not match its header" (some (PosixFiles.asPosix path))
    else .ok (v.sha256 hashed)
  | reading, observed, tail, hashed, chunk :: rest =>
    match v.requireTime member reading with
    | .error e => .error e
    | .ok () =>
      let observed := observed + chunk.length
      let scan := tail ++ chunk
      if declaredSize < observed ∨ v.maxFileBytes < observed then
        pathError "snapshot_file_limit" "source archive file exceeds its declared size"
          (some (PosixFiles.asPosix path))
      else if v.containsSecret path scan then
        pathError "snapshot_secret_detected"
          "source archive contains high-confidence secret material"
          (some (PosixFiles.asPosix path))
      else hashFile path declaredSize member (reading + 1) observed
        (scan.drop (scan.length - 4096)) (hashed ++ chunk) rest

def validateMember (index : ℕ) (m : TarMember) (path : List String) (expandedBytes : ℕ) :
    Except Failure (SnapshotManifestEntry × ℕ) :=
  match m.kind with
  | .directory => .ok ({ path := path, entry := .directory, chunks := [] }, expandedBytes)
  | .symlink => do
      let target ← containedLinkTarget path m.linkname
      v.requireAccessible target
      -- the bound of the manifest's `link_target`
      if 4096 < m.linkname.length then .error (.validation "link_target")
      else .ok ({ path := path, entry := .symlink m.linkname, chunks := [] }, expandedBytes)
  | .other =>
    pathError "snapshot_entry_unsupported" "source archive contains an unsupported entry type"
      (some (PosixFiles.asPosix path))
  | .file =>
    if v.maxFileBytes < m.size then
      pathError "snapshot_file_limit" "source archive file exceeds its byte limit"
        (some (PosixFiles.asPosix path))
    else if v.maxExpandedBytes < expandedBytes + m.size then
      pathError "snapshot_expanded_limit" "source archive exceeds its expanded byte limit" none
    else do
      let checksum ← v.hashFile path m.size index 1 0 [] [] m.chunks
      return ({ path := path, chunks := m.chunks
                entry := .file (if m.mode &&& 0o111 ≠ 0 then 0o755 else 0o644) m.size
                  checksum }, expandedBytes + m.size)

structure Progress where
  entries : List SnapshotManifestEntry := []
  identities : List String := []
  expandedBytes : ℕ := 0

/-- One round of the loop of `_validate_archive`. -/
def validateNext (index : ℕ) (p : Progress) (m : TarMember) : Except Failure Progress := do
  v.requireTime index 0
  if v.maxEntries ≤ p.entries.length then
    pathError "snapshot_entry_limit" "source archive contains too many entries" none
  else
    match ← normalizeMemberPath m with
    | none => return p
    | some path =>
      let identity := v.policy.casefold (PosixFiles.asPosix path)
      if identity ∈ p.identities then
        pathError "snapshot_duplicate_path"
          "source archive contains duplicate canonical paths" (some (PosixFiles.asPosix path))
      else
        v.requireAccessible path
        let (entry, expandedBytes) ← v.validateMember index m path p.expandedBytes
        return { entries := p.entries ++ [entry], identities := p.identities ++ [identity]
                 expandedBytes := expandedBytes }

/-- The loop of `_validate_archive`. -/
def validateMembers : ℕ → Progress → List TarMember → Except Failure Progress
  | _, p, [] => .ok p
  | index, p, m :: rest =>
    match v.validateNext index p m with
    | .error e => .error e
    | .ok p' => validateMembers (index + 1) p' rest

def validateArchive (members : List TarMember) :
    Except Failure (List SnapshotManifestEntry × ℕ) := do
  let p ← v.validateMembers 0 {} members
  return (p.entries.insertionSort fun a b =>
    PosixFiles.asPosix a.path ≤ PosixFiles.asPosix b.path, p.expandedBytes)

def materializationFailed : Failure :=
  .domain ⟨"snapshot_materialization_failed", "source archive could not be materialized", false,
    .nil⟩

def protocolError (message : String) : Failure :=
  .domain ⟨"snapshot_protocol_error", message, false, .nil⟩

inductive ExtractStep where
  | directory (path : List String)
  | file (path : List String) (chunks : List Bytes) (mode sizeBytes : ℕ) (sha256 : String)
  | symlink (path : List String) (target : String)
  | directoryMode (path : List String)
  deriving DecidableEq

def extractSteps (entries : List SnapshotManifestEntry) : List ExtractStep :=
  let directories := entries.filter fun e => decide (e.entry = .directory)
  directories.map (fun e => .directory e.path) ++
  entries.filterMap (fun e =>
    match e.entry with
    | .file mode size sha256 => some (.file e.path e.chunks mode size sha256)
    | _ => none) ++
  entries.filterMap (fun e =>
    match e.entry with
    | .symlink target => some (.symlink e.path target)
    | _ => none) ++ directories.reverse.map (fun e => .directoryMode e.path)

def osResult (r : FileSystem Bytes × Option Errno) : FileSystem Bytes × Option Failure :=
  (r.1, r.2.map fun _ => materializationFailed)

def andThen (r : FileSystem Bytes × Option Failure)
    (k : FileSystem Bytes → FileSystem Bytes × Option Failure) :
    FileSystem Bytes × Option Failure :=
  match r with
  | (fs, some e) => (fs, some e)
  | (fs, none) => k fs

def makeDirectory (limit : ℕ) (path : List String) (fs : FileSystem Bytes) :
    FileSystem Bytes × Option Failure :=
  osResult (PosixFiles.mkdirs fs limit path.length path 0o700)

def ExtractStep.run (limit : ℕ) (destination : List String) (fs : FileSystem Bytes) :
    ExtractStep → FileSystem Bytes × Option Failure
  | .directory path => makeDirectory limit (destination ++ path) fs
  | .file path chunks mode sizeBytes sha256 =>
    andThen (makeDirectory limit (destination ++ path).dropLast fs) fun fs =>
    andThen (osResult
      (PosixFiles.createFile fs limit (destination ++ path) chunks.flatten 0o666)) fun fs =>
    if sizeBytes < chunks.flatten.length then
      (fs, some (protocolError "validated source content exceeded its recorded size"))
    else if chunks.flatten.length ≠ sizeBytes ∨ v.sha256 chunks.flatten ≠ sha256 then
      (fs, some (protocolError "materialized source content failed integrity validation"))
    else osResult (PosixFiles.chmod fs limit (destination ++ path) mode)
  | .symlink path target =>
    andThen (makeDirectory limit (destination ++ path).dropLast fs) fun fs =>
    osResult (PosixFiles.symlink fs limit (destination ++ path) target)
  | .directoryMode path => osResult (PosixFiles.chmod fs limit (destination ++ path) 0o755)

def runSteps (limit : ℕ) (destination : List String) :
    FileSystem Bytes → List ExtractStep → FileSystem Bytes × Option Failure
  | fs, [] => (fs, none)
  | fs, step :: rest =>
    andThen (step.run v limit destination fs) fun fs => runSteps limit destination fs rest

def extractArchive (limit : ℕ) (destination : List String) (fs : FileSystem Bytes)
    (entries : List SnapshotManifestEntry) : FileSystem Bytes × Option Failure :=
  v.runSteps limit destination fs (extractSteps entries)

end SnapshotValidator

end AgentPlatform
