/-
**Containment of an unpacked archive.**
-/

import AgentPlatform.SourceArchive

namespace AgentPlatform

open PosixFiles List

open PosixFiles (FileSystem Node Visits Safe LinkFree)

def linkPaths (members : List TarMember) : List (List String) :=
  members.filterMap fun m =>
    if m.kind = .symlink then
      match normalizeMemberPath m with
      | .ok path => path
      | .error _ => none
    else none

def NoUpAfterLink (isLink : List String → Bool) : List String → List String → Prop
  | _, [] => True
  | place, c :: rest =>
    if c = ".." then NoUpAfterLink isLink place.dropLast rest
    else if isLink (place ++ [c]) then ".." ∉ rest
    else NoUpAfterLink isLink (place ++ [c]) rest

instance (isLink : List String → Bool) :
    (place comps : List String) → Decidable (NoUpAfterLink isLink place comps)
  | _, [] => isTrue trivial
  | place, c :: rest =>
    have := instDecidableNoUpAfterLink isLink place.dropLast rest
    have := instDecidableNoUpAfterLink isLink (place ++ [c]) rest
    inferInstanceAs (Decidable
      (if c = ".." then _ else if isLink (place ++ [c]) then ".." ∉ rest else _))

-- which of several instances is found depends on what is imported
local instance lawfulBEq_path : LawfulBEq (List String) :=
  inferInstance

def TarMember.Untangled (links : List (List String)) (m : TarMember) (path : List String) : Prop :=
  (∀ q ∈ links, q <+: path → q = path) ∧ (m.kind = .symlink →
      NoUpAfterLink (fun q => decide (q ∈ links)) path.dropLast (PosixFiles.parts m.linkname))

def Untangled (members : List TarMember) : Prop :=
  ∀ m ∈ members, ∀ path ∈ (normalizeMemberPath m).toOption.join,
    m.Untangled (linkPaths members) path

instance (members : List TarMember) : Decidable (Untangled members) :=
  inferInstanceAs (Decidable (∀ m ∈ members, ∀ path ∈ (normalizeMemberPath m).toOption.join,
    (∀ q ∈ linkPaths members, _ → _) ∧ (_ → NoUpAfterLink _ _ _)))

theorem safe_of_lexicalWalk {isLink : List String → Bool} {place comps : List String}
    (hw : lexicalWalk place comps ≠ none) (hno : NoUpAfterLink isLink place comps) :
    Safe isLink place comps := by
  induction comps generalizing place with
  | nil => trivial
  | cons _ _ ih =>
    unfold lexicalWalk at hw
    unfold NoUpAfterLink at hno
    unfold Safe
    split at hw
    next hc =>
      rw [if_pos hc] at hno ⊢
      split at hw
      · exact absurd rfl hw
      next hp => exact ⟨hp, ih hw hno⟩
    next hc =>
      rw [if_neg hc] at hno ⊢
      split at hno
      next hl =>
        rw [if_pos hl]
        exact hno
      next hl =>
        rw [if_neg hl]
        exact ih hw hno

theorem normalizeWorkspacePath_ok {text : String} {path : List String}
    (h : normalizeWorkspacePath text = .ok path) : path = parts text ∧ ".." ∉ path := by
  unfold normalizeWorkspacePath at h
  split at h
  · cases h
  · split at h
    · cases h
    next hr =>
      cases h
      exact ⟨rfl, fun hmem => hr (.inr hmem)⟩

theorem normalizeMemberPath_noUp {m : TarMember} {path : List String}
    (h : normalizeMemberPath m = .ok (some path)) : ".." ∉ path := by
  unfold normalizeMemberPath at h
  split at h
  · cases h
  split at h
  · cases h
  next hp =>
    split at h
    · cases h
    · cases h
      exact (normalizeWorkspacePath_ok hp).2

theorem containedLinkTarget_ok {path target : List String} {raw : String}
    (h : containedLinkTarget path raw = .ok target) : isAbsolute raw = false ∧
      lexicalWalk path.dropLast (parts raw) = some target := by
  unfold containedLinkTarget at h
  dsimp only at h
  split at h
  · cases h
  split at h
  · cases h
  rename_i hr
  split at h
  · cases h
  · cases h
  next hw =>
    cases h
    exact ⟨by simpa using hr, hw⟩

namespace SnapshotValidator

variable {v : SnapshotValidator}

structure Origin (members : List TarMember) (e : SnapshotManifestEntry) (m : TarMember) : Prop where
  member : m ∈ members
  path : normalizeMemberPath m = .ok (some e.path)
  symlink : ∀ t, e.entry = .symlink t → m.kind = .symlink ∧ t = m.linkname ∧
    PosixFiles.isAbsolute t = false ∧ lexicalWalk e.path.dropLast (PosixFiles.parts t) ≠ none

theorem validateMember_entry {index expanded expanded' : ℕ} {m : TarMember} {path : List String}
    {e : SnapshotManifestEntry} (h : v.validateMember index m path expanded = .ok (e, expanded')) :
    e.path = path ∧ ∀ t, e.entry = .symlink t → m.kind = .symlink ∧ t = m.linkname ∧
      isAbsolute t = false ∧ lexicalWalk path.dropLast (parts t) ≠ none := by
  unfold validateMember at h
  split at h
  · cases h
    exact ⟨rfl, nofun⟩
  next hk =>
    obtain ⟨_, ht, h⟩ := except_bind_ok h
    obtain ⟨_, -, h⟩ := except_bind_ok h
    split at h
    · cases h
    · cases h
      refine ⟨rfl, ?_⟩
      rintro t ⟨⟩
      obtain ⟨hr, hw⟩ := containedLinkTarget_ok ht
      exact ⟨hk, rfl, hr, by rw [hw]; exact nofun⟩
  · cases h
  · split at h
    · cases h
    · split at h
      · cases h
      · obtain ⟨_, -, h⟩ := except_bind_ok h
        cases h
        exact ⟨rfl, nofun⟩

structure Collected (v : SnapshotValidator) (members : List TarMember) (p : Progress) : Prop where
  origin : ∀ e ∈ p.entries, ∃ m, Origin members e m
  identities : p.identities = p.entries.map fun e => v.policy.casefold (PosixFiles.asPosix e.path)
  distinct : p.identities.Nodup

theorem Collected.next {members : List TarMember} {index : ℕ} {p p' : Progress} {m : TarMember}
    (hp : Collected v members p) (hm : m ∈ members) (h : v.validateNext index p m = .ok p') :
    Collected v members p' := by
  obtain ⟨_, -, h⟩ := except_bind_ok h
  split at h
  · cases h
  obtain ⟨path?, hpa, h⟩ := except_bind_ok h
  cases path? with
  | none => cases h; exact hp
  | some =>
    dsimp only at h
    split at h
    · cases h
    rename_i hnew
    obtain ⟨_, -, h⟩ := except_bind_ok h
    obtain ⟨⟨_, _⟩, hen, h⟩ := except_bind_ok h
    cases h
    obtain ⟨rfl, hs⟩ := validateMember_entry hen
    refine ⟨?_, ?_, ?_⟩
    · intro e' he'
      rcases mem_append.1 he' with hold | hl
      · exact hp.origin e' hold
      · obtain rfl := mem_singleton.1 hl
        exact ⟨m, hm, hpa, hs⟩
    · simp [hp.identities]
    · rw [nodup_append]
      refine ⟨hp.distinct, by simp, ?_⟩
      intro a ha b hb heq
      rw [mem_singleton.1 hb] at heq
      exact hnew (heq ▸ ha)

theorem Collected.all {members : List TarMember} {rest : List TarMember} {index : ℕ}
    {p p' : Progress} (hp : Collected v members p) (hsub : ∀ m ∈ rest, m ∈ members)
    (h : v.validateMembers index p rest = .ok p') : Collected v members p' := by
  induction rest generalizing index p with
  | nil => cases h; exact hp
  | cons m _ ih =>
    unfold validateMembers at h
    cases hn : v.validateNext index p m with
    | error => rw [hn] at h; cases h
    | ok =>
      rw [hn] at h
      exact ih (hp.next (hsub m (mem_cons_self ..)) hn)
        (fun m' hm' => hsub m' (mem_cons_of_mem _ hm')) h

theorem validateArchive_entry {members : List TarMember} {entries : List SnapshotManifestEntry}
    {expanded : ℕ} (h : v.validateArchive members = .ok (entries, expanded)) :
    (∀ e ∈ entries, ∃ m, Origin members e m) ∧ (entries.map SnapshotManifestEntry.path).Nodup := by
  obtain ⟨p, hp, h⟩ := except_bind_ok h
  cases h
  have hc : Collected v members p :=
    Collected.all ⟨fun e he => (not_mem_nil he).elim, rfl, nodup_nil⟩
      (fun m hm => hm) hp
  have hpe := perm_insertionSort (fun a b : SnapshotManifestEntry =>
    asPosix a.path ≤ asPosix b.path) p.entries
  refine ⟨fun e he => hc.origin e (hpe.subset he), ?_⟩
  rw [(hpe.map SnapshotManifestEntry.path).nodup_iff]
  have hd := hc.distinct
  rw [hc.identities] at hd
  refine List.Nodup.of_map (fun path => v.policy.casefold (asPosix path)) ?_
  rw [map_map]
  exact hd

end SnapshotValidator

structure Destination (fs : FileSystem Bytes) (dest : List String) : Prop where
  real : ∀ q, q <+: dest → ∃ mode, fs q = some (.directory mode)
  physical : ".." ∉ dest
  empty : ∀ q, q ≠ [] → fs (dest ++ q) = none

structure Unpacked (fs₀ fs : FileSystem Bytes) (dest : List String)
    (links : List (List String × String)) : Prop where
  outside : ∀ p, ¬ dest <+: p → fs p = fs₀ p
  real : ∀ q, q <+: dest → ∃ mode, fs q = some (.directory mode)
  links : ∀ q t, fs (dest ++ q) = some (.link t) → (q, t) ∈ links

structure Placed (links : List (List String × String)) (path : List String) : Prop where
  noUp : ".." ∉ path
  free : ∀ q t, (q, t) ∈ links → q <+: path → q = path

variable {fs₀ fs fs' : FileSystem Bytes} {dest path : List String}
  {links : List (List String × String)}

theorem Destination.unpacked (h : Destination fs dest) (links : List (List String × String)) :
    Unpacked fs fs dest links where
  outside := fun _ _ => rfl
  real := h.real
  links := by
    intro q t hl
    by_cases hq : q = []
    · obtain ⟨_, hd⟩ := h.real dest (prefix_refl _)
      rw [hq, append_nil, hd] at hl
      cases hl
    · rw [h.empty q hq] at hl
      cases hl

theorem prefix_cases {p : List String} (h : p <+: dest ++ path) :
    p <+: dest ∨ ∃ q, p = dest ++ q ∧ q <+: path := by
  rcases List.prefix_or_prefix_of_prefix h (prefix_append dest path) with hup | hd
  · exact .inl hup
  · obtain ⟨q, rfl⟩ := hd
    exact .inr ⟨q, rfl, (prefix_append_right_inj dest).1 h⟩

theorem Placed.noUp_append (hp : Placed links path) (hd : ".." ∉ dest) : ".." ∉ dest ++ path := by
  rw [mem_append, not_or]
  exact ⟨hd, hp.noUp⟩

section

variable (h : Unpacked fs₀ fs dest links)

include h

namespace Unpacked

theorem linkFree_parent (hp : Placed links path) :
    LinkFree fs [] (dest ++ path).dropLast := by
  intro pre hne hpr t hl
  rw [nil_append] at hl
  rcases prefix_cases (hpr.trans (List.dropLast_prefix _)) with hup | ⟨q, rfl, hq⟩
  · obtain ⟨_, hd⟩ := h.real pre hup
    rw [hd] at hl
    cases hl
  · obtain rfl := hp.free q t (h.links q t hl) hq
    have hlen := hpr.length_le
    have hpos := length_pos_iff.2 hne
    rw [length_dropLast] at hlen
    omega

theorem linkFree (hp : Placed links path)
    (hl : ∀ t, fs (dest ++ path) ≠ some (.link t)) : LinkFree fs [] (dest ++ path) := by
  intro pre hne hpr t hli
  rw [nil_append] at hli
  rcases prefix_cases hpr with hup | ⟨q, rfl, hq⟩
  · obtain ⟨_, hd⟩ := h.real pre hup
    rw [hd] at hli
    cases hli
  · obtain rfl := hp.free q t (h.links q t hli) hq
    exact hl t hli

theorem directories {p : List String}
    (hp : p <+: dest ++ path) (hd : PosixFiles.OnlyDirectories fs fs' p) :
    Unpacked fs₀ fs' dest links where
  outside := by
    intro x hx
    rcases hd x with hs | ⟨hpr, hn, -⟩
    · exact hs.trans (h.outside x hx)
    · rcases prefix_cases (hpr.trans hp) with hup | ⟨q, rfl, -⟩
      · obtain ⟨mode, hdi⟩ := h.real x hup
        rw [hdi] at hn
        cases hn
      · exact absurd (prefix_append dest q) hx
  real := by
    intro q hq
    rcases hd q with hs | ⟨-, -, hdi⟩
    · rw [hs]
      exact h.real q hq
    · exact hdi
  links := by
    intro q t hl
    rcases hd (dest ++ q) with hs | ⟨-, -, mode, hdi⟩
    · exact h.links q t (hs.symm.trans hl)
    · rw [hdi] at hl
      cases hl

theorem set {node : Node Bytes}
    (hl : ∀ t, node = .link t → (path, t) ∈ links)
    (hr : path = [] → ∃ mode, node = .directory mode) :
    Unpacked fs₀ (fs.set (dest ++ path) node) dest links where
  outside := by
    intro x hx
    have hne : x ≠ dest ++ path := by
      rintro rfl
      exact hx (prefix_append dest path)
    rw [fs.set_of_ne node hne]
    exact h.outside x hx
  real := by
    intro q hq
    by_cases hr' : q = dest ++ path
    · have hnil : path = [] := by
        have hlen := hq.length_le
        rw [hr', length_append] at hlen
        exact eq_nil_of_length_eq_zero (by omega)
      obtain ⟨mode, rfl⟩ := hr hnil
      exact ⟨mode, hr' ▸ fs.set_self _ _⟩
    · rw [fs.set_of_ne node hr']
      exact h.real q hq
  links := by
    intro q t ht
    by_cases hq : dest ++ q = dest ++ path
    · rw [hq, fs.set_self] at ht
      obtain rfl := append_cancel_left hq
      exact hl t (Option.some.inj ht)
    · rw [fs.set_of_ne node hq] at ht
      exact h.links q t ht

theorem not_root (hn : fs (dest ++ path) = none) :
    path ≠ [] := by
  rintro rfl
  obtain ⟨_, hd⟩ := h.real dest (prefix_refl _)
  rw [append_nil, hd] at hn
  cases hn

theorem create (hp : Placed links path)
    (hd : ".." ∉ dest) (limit : ℕ) {node : Node Bytes}
    (hl : ∀ t, node = .link t → (path, t) ∈ links) :
    Unpacked fs₀ (PosixFiles.create fs limit (dest ++ path) node).1 dest links := by
  rcases create_effect limit node (hp.noUp_append hd) (h.linkFree_parent hp) with
    ⟨hs, -⟩ | ⟨hn, hm⟩
  · rw [hs]
    exact h
  · rw [hm]
    exact h.set hl fun hnil => absurd hnil (h.not_root hn)

theorem chmod (hp : Placed links path)
    (hd : ".." ∉ dest) (limit mode : ℕ) (hl : ∀ t, fs (dest ++ path) ≠ some (.link t)) :
    Unpacked fs₀ (PosixFiles.chmod fs limit (dest ++ path) mode).1 dest links := by
  rcases chmod_effect limit mode (hp.noUp_append hd) (h.linkFree hp hl) with
    hs | ⟨-, hset⟩ | ⟨content, m, hf, hset⟩
  · rw [hs]
    exact h
  · rw [hset]
    exact h.set nofun fun _ => ⟨mode, rfl⟩
  · rw [hset]
    refine h.set nofun fun hnil => ?_
    obtain ⟨_, hdi⟩ := h.real dest (prefix_refl _)
    rw [hnil, append_nil, hdi] at hf
    cases hf

end Unpacked

end

namespace SnapshotValidator

def ExtractStep.Placed (links : List (List String × String)) : ExtractStep → Prop
  | .directory path => AgentPlatform.Placed links path
  | .file path _ _ _ _ | .directoryMode path =>
    AgentPlatform.Placed links path ∧ ∀ t, (path, t) ∉ links
  | .symlink path target => AgentPlatform.Placed links path ∧ (path, target) ∈ links

theorem andThen_fst {P : FileSystem Bytes → Prop} {r : FileSystem Bytes × Option Failure}
    {k : FileSystem Bytes → FileSystem Bytes × Option Failure} (hr : P r.1)
    (hk : ∀ fs, P fs → P (k fs).1) : P (andThen r k).1 := by
  obtain ⟨fs, e⟩ := r
  cases e with
  | none => exact hk fs hr
  | some => exact hr

theorem Unpacked.makeDirectory (h : Unpacked fs₀ fs dest links)
    (hp : AgentPlatform.Placed links path) (hd : ".." ∉ dest) (limit : ℕ) :
    Unpacked fs₀ (makeDirectory limit (dest ++ path) fs).1 dest links :=
  h.directories (prefix_refl _)
    (mkdirs_effect limit _ _ (hp.noUp_append hd) (h.linkFree_parent hp))

theorem Unpacked.makeParent (h : Unpacked fs₀ fs dest links)
    (hp : AgentPlatform.Placed links path) (hd : ".." ∉ dest) (limit : ℕ) :
    Unpacked fs₀ (SnapshotValidator.makeDirectory limit (dest ++ path).dropLast fs).1 dest
      links := by
  have hsub : (dest ++ path).dropLast <+: dest ++ path := dropLast_prefix _
  refine h.directories hsub (mkdirs_effect limit _ _ ?_ ?_)
  · exact fun hmem => hp.noUp_append hd (hsub.subset hmem)
  · exact (h.linkFree_parent hp).shorten (List.dropLast_prefix _)

theorem Unpacked.run (v : SnapshotValidator) (h : Unpacked fs₀ fs dest links)
    (hd : ".." ∉ dest) (limit : ℕ) {step : ExtractStep} (hs : step.Placed links) :
    Unpacked fs₀ (step.run v limit dest fs).1 dest links := by
  cases step with
  | directory => exact Unpacked.makeDirectory h hs hd limit
  | file path _ mode =>
    obtain ⟨hp, hnot⟩ := hs
    refine andThen_fst (P := fun fs => Unpacked fs₀ fs dest links)
      (Unpacked.makeParent h hp hd limit) fun fs hfs => ?_
    refine andThen_fst (P := fun fs => Unpacked fs₀ fs dest links)
      (hfs.create hp hd limit nofun) fun fs hfs => ?_
    split
    · exact hfs
    · split
      · exact hfs
      · exact hfs.chmod hp hd limit mode fun t ht => hnot t (hfs.links path t ht)
  | symlink =>
    obtain ⟨hp, hmem⟩ := hs
    refine andThen_fst (P := fun fs => Unpacked fs₀ fs dest links)
      (Unpacked.makeParent h hp hd limit) fun fs hfs => ?_
    refine hfs.create hp hd limit ?_
    rintro t ⟨⟩
    exact hmem
  | directoryMode path =>
    obtain ⟨hp, hnot⟩ := hs
    exact h.chmod hp hd limit 0o755 fun t ht => hnot t (h.links path t ht)

theorem Unpacked.runSteps (v : SnapshotValidator) {steps : List ExtractStep}
    (h : Unpacked fs₀ fs dest links) (hd : ".." ∉ dest) (limit : ℕ)
    (hs : ∀ step ∈ steps, step.Placed links) :
    Unpacked fs₀ (v.runSteps limit dest fs steps).1 dest links := by
  induction steps generalizing fs with
  | nil => exact h
  | cons step _ ih =>
    unfold SnapshotValidator.runSteps
    refine andThen_fst (P := fun fs => Unpacked fs₀ fs dest links)
      (Unpacked.run v h hd limit (hs step (mem_cons_self ..))) fun fs hfs => ?_
    exact ih hfs fun step' hst' => hs step' (mem_cons_of_mem _ hst')

def entryLinks (entries : List SnapshotManifestEntry) : List (List String × String) :=
  entries.filterMap fun e =>
    match e.entry with
    | .symlink target => some (e.path, target)
    | _ => none

theorem mem_entryLinks {entries : List SnapshotManifestEntry} {q : List String} {t : String} :
    (q, t) ∈ entryLinks entries ↔ ∃ e ∈ entries, e.path = q ∧ e.entry = .symlink t := by
  simp only [entryLinks, mem_filterMap]
  constructor
  · rintro ⟨e, he, hs⟩
    split at hs
    next target hta =>
      cases hs
      exact ⟨e, he, rfl, hta⟩
    · cases hs
  · rintro ⟨e, he, rfl, ht⟩
    exact ⟨e, he, by rw [ht]⟩

variable {v : SnapshotValidator} {members : List TarMember} {entries : List SnapshotManifestEntry}

theorem Origin.link {e : SnapshotManifestEntry} {m : TarMember} (h : Origin members e m)
    {t : String} (ht : e.entry = .symlink t) : e.path ∈ linkPaths members := by
  obtain ⟨hk, -⟩ := h.symlink t ht
  refine mem_filterMap.2 ⟨m, h.member, ?_⟩
  rw [if_pos hk, h.path]

theorem Origin.untangled {e : SnapshotManifestEntry} {m : TarMember} (h : Origin members e m)
    (hu : Untangled members) : m.Untangled (linkPaths members) e.path :=
  hu m h.member e.path (by rw [h.path]; rfl)

theorem extractSteps_placed (ho : ∀ e ∈ entries, ∃ m, Origin members e m)
    (hd : (entries.map SnapshotManifestEntry.path).Nodup) (hu : Untangled members) :
    ∀ step ∈ extractSteps entries, step.Placed (entryLinks entries) := by
  have hp : ∀ e ∈ entries, AgentPlatform.Placed (entryLinks entries) e.path := by
    intro e he
    obtain ⟨m, hm⟩ := ho e he
    refine ⟨normalizeMemberPath_noUp hm.path, ?_⟩
    intro q t hq hpr
    obtain ⟨e', he', rfl, ht⟩ := mem_entryLinks.1 hq
    obtain ⟨_, hm'⟩ := ho e' he'
    exact (hm.untangled hu).1 e'.path (hm'.link ht) hpr
  have ha : ∀ e ∈ entries, (∀ t, e.entry ≠ .symlink t) →
      ∀ t, (e.path, t) ∉ entryLinks entries := by
    intro e he hk t hmem
    obtain ⟨e', he', hpa, ht⟩ := mem_entryLinks.1 hmem
    obtain rfl := inj_on_of_nodup_map hd he' he hpa
    exact hk t ht
  intro step hs
  simp only [extractSteps, mem_append, mem_map, mem_filter, mem_filterMap,
    mem_reverse, decide_eq_true_eq] at hs
  obtain ((⟨e, ⟨he, -⟩, rfl⟩ | ⟨e, he, hso⟩) | ⟨e, he, hso⟩) | ⟨e, ⟨he, hk⟩, rfl⟩ := hs
  · exact hp e he
  · split at hso
    next hf =>
      cases hso
      exact ⟨hp e he, ha e he (by rw [hf]; exact nofun)⟩
    · cases hso
  · split at hso
    next hl =>
      cases hso
      exact ⟨hp e he, mem_entryLinks.2 ⟨e, he, rfl, hl⟩⟩
    · cases hso
  · exact ⟨hp e he, ha e he (by rw [hk]; exact nofun)⟩

end SnapshotValidator

def Contained (fs₀ fs : FileSystem Bytes) (dest : List String) : Prop :=
  (∀ p, ¬ dest <+: p → fs p = fs₀ p) ∧ ∀ q name t, fs (dest ++ q ++ [name]) = some (.link t) →
      ∀ cur rest, Visits fs (dest ++ q) [name] cur rest → dest <+: cur

/-- **Containment.** -/
theorem extraction_contained (v : SnapshotValidator) (members : List TarMember)
    (entries : List SnapshotManifestEntry) (expanded limit : ℕ) (dest : List String)
    (fs : FileSystem Bytes) (haccepted : v.validateArchive members = .ok (entries, expanded))
    (hdest : Destination fs dest) (huntangled : Untangled members) :
    Contained fs (v.extractArchive limit dest fs entries).1 dest := by
  obtain ⟨horigin, hdistinct⟩ := SnapshotValidator.validateArchive_entry haccepted
  have hunpacked : Unpacked fs (v.extractArchive limit dest fs entries).1 dest
      (SnapshotValidator.entryLinks entries) :=
    SnapshotValidator.Unpacked.runSteps v (hdest.unpacked _) hdest.physical limit
      (SnapshotValidator.extractSteps_placed horigin hdistinct huntangled)
  refine ⟨hunpacked.outside, ?_⟩
  intro q name t hlink cur rest hvisits
  have hsafe : ∀ place t, (v.extractArchive limit dest fs entries).1 (dest ++ place) =
      some (.link t) → place ≠ [] →
      decide (place ∈ linkPaths members) = true ∧ PosixFiles.isAbsolute t = false ∧
        Safe (fun q => decide (q ∈ linkPaths members)) place.dropLast (PosixFiles.parts t) := by
    intro place t ht _
    obtain ⟨e, he, rfl, hentry⟩ := SnapshotValidator.mem_entryLinks.1 (hunpacked.links place t ht)
    obtain ⟨m, hm⟩ := horigin e he
    obtain ⟨hkind, rfl, hrelative, hwalk⟩ := hm.symlink t hentry
    exact ⟨decide_eq_true (hm.link hentry), hrelative,
      safe_of_lexicalWalk hwalk ((hm.untangled huntangled).2 hkind)⟩
  have hname : ".." ∉ [name] := by
    rw [append_assoc] at hlink
    obtain ⟨e, he, hpath, -⟩ :=
      SnapshotValidator.mem_entryLinks.1 (hunpacked.links _ t hlink)
    obtain ⟨m, hm⟩ := horigin e he
    have hup := normalizeMemberPath_noUp hm.path
    rw [hpath, mem_append, not_or] at hup
    exact hup.2
  obtain ⟨place, rfl, -⟩ :=
    hvisits.inside hsafe q rfl (PosixFiles.safe_of_not_mem hname)
  exact prefix_append dest place

section Examples

def lenientValidator : SnapshotValidator where
  policy := { casefold := id }
  containsSecret _ _ := false
  sha256 _ := ""
  maxCompressedBytes := 1000
  maxExpandedBytes := 1000
  maxFileBytes := 1000
  maxEntries := 100
  overdue _ _ := false

def emptyDestination : FileSystem Bytes := fun p =>
  if p = [] ∨ p = ["work"] ∨ p = ["work", "dest"] then some (.directory 0o755) else none

theorem emptyDestination_ready : Destination emptyDestination ["work", "dest"] where
  real := by
    intro q hq
    have hmem := (mem_inits _ _).2 hq
    simp only [inits, map_cons, map_nil, mem_cons, not_mem_nil, or_false] at hmem
    rcases hmem with rfl | rfl | rfl <;> exact ⟨0o755, by decide⟩
  physical := by decide
  empty := by
    intro q hq
    unfold emptyDestination
    rw [if_neg]
    simpa using hq

def plainMembers : List TarMember :=
  [ { name := "p/", kind := .directory }, { name := "p/q/", kind := .directory },
    { name := "r/", kind := .directory },
    { name := "p/q/a", kind := .symlink, linkname := "../../r" } ]

def plainEntries : List SnapshotManifestEntry :=
  [ ⟨["p"], .directory, []⟩, ⟨["p", "q"], .directory, []⟩,
    ⟨["p", "q", "a"], .symlink "../../r", []⟩, ⟨["r"], .directory, []⟩ ]

theorem extraction_contained_plain : Contained emptyDestination
      (lenientValidator.extractArchive 100 ["work", "dest"] emptyDestination plainEntries).1
      ["work", "dest"] :=
  extraction_contained lenientValidator plainMembers plainEntries 0 100 ["work", "dest"]
    emptyDestination (by decide +kernel) emptyDestination_ready (by decide +kernel)

/-- A link `s` whose target goes up twice after the link `p/q/a`. -/
def tangledMembers : List TarMember :=
  plainMembers ++ [ { name := "s", kind := .symlink, linkname := "p/q/a/../.." },
      { name := "s/evil", kind := .symlink, linkname := "x" } ]

def tangledEntries : List SnapshotManifestEntry :=
  plainEntries ++ [⟨["s"], .symlink "p/q/a/../..", []⟩, ⟨["s", "evil"], .symlink "x", []⟩]

theorem extraction_escapes :
    ¬ ∀ (v : SnapshotValidator) (members : List TarMember) (entries : List SnapshotManifestEntry)
        (expanded limit : ℕ) (dest : List String) (fs : FileSystem Bytes),
      v.validateArchive members = .ok (entries, expanded) → Destination fs dest →
      Contained fs (v.extractArchive limit dest fs entries).1 dest := by
  intro hcontained
  have houtside := (hcontained lenientValidator tangledMembers tangledEntries 0 100
    ["work", "dest"] emptyDestination (by decide +kernel) emptyDestination_ready).1
    ["work", "evil"] (by decide)
  have hcreated : (lenientValidator.extractArchive 100 ["work", "dest"] emptyDestination
      tangledEntries).1 ["work", "evil"] = some (.link "x") := by decide +kernel
  rw [hcreated] at houtside
  exact absurd houtside (by decide)

end Examples

end AgentPlatform
