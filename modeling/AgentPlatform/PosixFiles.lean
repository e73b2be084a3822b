/-
**A POSIX file system with symbolic links.**
-/

import Mathlib

namespace PosixFiles

open List String

/-! ### The text of a path -/

/-- The components of a path text. -/
def parts (text : String) : List String :=
  ((text.toList.splitOn '/').map String.ofList).filter fun p => decide (p ≠ "" ∧ p ≠ ".")

def isAbsolute (text : String) : Bool := text.toList.head? == some '/'

def asPosix (path : List String) : String :=
  if path = [] then "."
  else String.ofList (['/'].intercalate (path.map String.toList))

variable {path rest cur comps : List String} {n limit : ℕ}

/-! ### File systems -/

variable {B : Type}

inductive Node (B : Type) where
  | directory (mode : ℕ)
  | file (content : B) (mode : ℕ)
  | link (target : String)
  deriving DecidableEq

abbrev FileSystem (B : Type) := List String → Option (Node B)

variable {fs fs' : FileSystem B}

def FileSystem.set (fs : FileSystem B) (path : List String) (node : Node B) : FileSystem B :=
  fun p => if p = path then some node else fs p

theorem FileSystem.set_self (fs : FileSystem B) (path : List String) (node : Node B) :
    fs.set path node path = some node := if_pos rfl

variable {c : String} {p comps' : List String}

theorem FileSystem.set_of_ne (fs : FileSystem B) (node : Node B) (h : p ≠ path)
    : fs.set path node p = fs p := if_neg h

inductive Errno where
  | noEntry | exists' | notDirectory | loop
  deriving DecidableEq

/-- One step of a resolution. -/
def advance (fs : FileSystem B) (cur : List String) (c : String) (rest : List String) :
    Except Errno (List String × List String) :=
  if c = ".." then .ok (cur.dropLast, rest)
  else
    match fs (cur ++ [c]) with
    | some (.link target) => .ok (if isAbsolute target then [] else cur, parts target ++ rest)
    | some (.directory _) => .ok (cur ++ [c], rest)
    | some (.file _ _) => if rest = [] then .ok (cur ++ [c], []) else .error .notDirectory
    | none => if rest = [] then .ok (cur ++ [c], []) else .error .noEntry

inductive Visits (fs : FileSystem B) :
    List String → List String → List String → List String → Prop
  | here (cur rest : List String) : Visits fs cur rest cur rest
  | step {cur cur' cur'' : List String} {c : String} {rest rest' rest'' : List String}
      (first : advance fs cur c rest = .ok (cur', rest'))
      (later : Visits fs cur' rest' cur'' rest'') : Visits fs cur (c :: rest) cur'' rest''

def resolve (fs : FileSystem B) : ℕ → List String → List String → Except Errno (List String)
  | _, cur, [] => .ok cur
  | 0, _, _ :: _ => .error .loop
  | n + 1, cur, c :: rest =>
    match advance fs cur c rest with
    | .error e => .error e
    | .ok (cur', rest') => resolve fs n cur' rest'

def entryAt (fs : FileSystem B) (limit : ℕ) (path : List String) :
    Except Errno (List String) :=
  match path.getLast? with
  | none => .error .exists'
  | some name =>
    match resolve fs limit [] path.dropLast with
    | .error e => .error e
    | .ok dir =>
      match fs dir with
      | some (.directory _) => .ok (dir ++ [name])
      | some _ => .error .notDirectory
      | none => .error .noEntry

/-! ### Operations -/

def create (fs : FileSystem B) (limit : ℕ) (path : List String) (node : Node B) :
    FileSystem B × Option Errno :=
  match entryAt fs limit path with
  | .error e => (fs, some e)
  | .ok entry =>
    match fs entry with
    | some _ => (fs, some .exists')
    | none => (fs.set entry node, none)

/-- `open(path, "xb")`, written and closed. -/
def createFile (fs : FileSystem B) (limit : ℕ) (path : List String) (content : B) (mode : ℕ) :
    FileSystem B × Option Errno :=
  create fs limit path (.file content mode)

def symlink (fs : FileSystem B) (limit : ℕ) (path : List String) (target : String) :
    FileSystem B × Option Errno :=
  create fs limit path (.link target)

def isDir (fs : FileSystem B) (limit : ℕ) (path : List String) : Bool :=
  match resolve fs limit [] path with
  | .error _ => false
  | .ok p =>
    match fs p with
    | some (.directory _) => true
    | _ => false

def mkdirExistOk (fs : FileSystem B) (limit : ℕ) (path : List String) (mode : ℕ) :
    FileSystem B × Option Errno :=
  match create fs limit path (.directory mode) with
  | (fs', none) => (fs', none)
  | (fs', some .noEntry) => (fs', some .noEntry)
  | (fs', some e) => if isDir fs' limit path then (fs', none) else (fs', some e)

/-- `mkdir` with parents. -/
def mkdirs (fs : FileSystem B) (limit : ℕ) :
    ℕ → List String → ℕ → FileSystem B × Option Errno
  | 0, path, mode => mkdirExistOk fs limit path mode
  | n + 1, path, mode =>
    match mkdirExistOk fs limit path mode with
    | (_, some .noEntry) =>
      match mkdirs fs limit n path.dropLast 0o777 with
      | (fs', some e) => (fs', some e)
      | (fs', none) => mkdirExistOk fs' limit path mode
    | outcome => outcome

/-- `chmod`, following links. -/
def chmod (fs : FileSystem B) (limit : ℕ) (path : List String) (mode : ℕ) :
    FileSystem B × Option Errno :=
  match resolve fs limit [] path with
  | .error e => (fs, some e)
  | .ok p =>
    match fs p with
    | some (.directory _) => (fs.set p (.directory mode), none)
    | some (.file content _) => (fs.set p (.file content mode), none)
    | some (.link _) => (fs, some .loop)
    | none => (fs, some .noEntry)

/-! ### Paths without links -/

def LinkFree (fs : FileSystem B) (cur comps : List String) : Prop :=
  ∀ pre, pre ≠ [] → pre <+: comps → ∀ t, fs (cur ++ pre) ≠ some (.link t)

theorem LinkFree.tail (h : LinkFree fs cur (c :: rest)) : LinkFree fs (cur ++ [c]) rest := by
  intro pre hne hp t
  rw [List.append_assoc]
  exact h ([c] ++ pre) (by simp) (cons_prefix_cons.2 ⟨rfl, hp⟩) t

theorem LinkFree.shorten (h : LinkFree fs cur comps) (hsub : comps' <+: comps)
    : LinkFree fs cur comps' :=
  fun pre hne hp => h pre hne (hp.trans hsub)

theorem resolve_linkFree (hup : ".." ∉ comps) (hf : LinkFree fs cur comps)
    (h : resolve fs n cur comps = .ok p) : p = cur ++ comps := by
  induction comps generalizing n cur with
  | nil =>
    unfold resolve at h
    cases h
    rw [append_nil]
  | cons c rest ih =>
    obtain ⟨hc, hr⟩ : c ≠ ".." ∧ ".." ∉ rest := by
      rw [mem_cons, not_or] at hup
      exact ⟨fun heq => hup.1 heq.symm, hup.2⟩
    cases n with
    | zero => cases h
    | succ =>
      have hs : ∀ cur' rest', advance fs cur c rest = .ok (cur', rest') →
          cur' = cur ++ [c] ∧ rest' = rest := by
        intro cur' rest' ha
        unfold advance at ha
        rw [if_neg hc] at ha
        have hl := hf [c] (by simp) (cons_prefix_cons.2 ⟨rfl, List.nil_prefix⟩)
        split at ha
        next t ht => exact absurd ht (hl t)
        · cases ha; exact ⟨rfl, rfl⟩
        · split at ha
          · rename_i hnil; cases ha; exact ⟨rfl, hnil.symm⟩
          · cases ha
        · split at ha
          · rename_i hnil; cases ha; exact ⟨rfl, hnil.symm⟩
          · cases ha
      unfold resolve at h
      cases ha : advance fs cur c rest with
      | error => rw [ha] at h; cases h
      | ok next =>
        obtain ⟨cur', rest'⟩ := next
        obtain ⟨rfl, rfl⟩ := hs cur' rest' ha
        rw [ha] at h
        have hp := ih hr hf.tail h
        rw [hp, List.append_assoc, singleton_append]

theorem entryAt_linkFree (hup : ".." ∉ path) (hf : LinkFree fs [] path.dropLast)
    (h : entryAt fs limit path = .ok p) : p = path := by
  unfold entryAt at h
  split at h
  · cases h
  rename_i name hn
  have hp : path.dropLast ++ [name] = path := dropLast_append_getLast? name hn
  cases hdi : resolve fs limit [] path.dropLast with
  | error => rw [hdi] at h; cases h
  | ok =>
    have hup' : ".." ∉ path.dropLast := fun hmem => hup (dropLast_subset _ hmem)
    have hd := resolve_linkFree hup' hf hdi
    rw [nil_append] at hd
    rw [hdi] at h
    dsimp only at h
    split at h
    · cases h
      rw [hd, hp]
    · cases h
    · cases h

/-! ### What the operations change -/

theorem create_effect (limit : ℕ) (node : Node B) (hup : ".." ∉ path)
    (hf : LinkFree fs [] path.dropLast) :
    (create fs limit path node).1 = fs ∧ (create fs limit path node).2 ≠ none ∨
      fs path = none ∧ create fs limit path node = (fs.set path node, none) := by
  unfold create
  cases he : entryAt fs limit path with
  | error => exact .inl ⟨rfl, nofun⟩
  | ok entry =>
    obtain rfl := entryAt_linkFree hup hf he
    cases hn : fs entry with
    | some => exact .inl ⟨by simp [hn], by simp [hn]⟩
    | none => exact .inr ⟨rfl, by simp [hn]⟩

def OnlyDirectories (fs fs' : FileSystem B) (path : List String) : Prop :=
  ∀ p, fs' p = fs p ∨ p <+: path ∧ fs p = none ∧ ∃ mode, fs' p = some (.directory mode)

theorem OnlyDirectories.refl (fs : FileSystem B) (path : List String) :
    OnlyDirectories fs fs path :=
  fun _ => .inl rfl

theorem OnlyDirectories.trans {fs'' : FileSystem B} (h : OnlyDirectories fs fs' path)
    (h' : OnlyDirectories fs' fs'' path) : OnlyDirectories fs fs'' path := by
  intro p
  rcases h' p with hs | ⟨hp, hn, hd⟩
  · rcases h p with hs' | ⟨hp, hn, mode, hd⟩
    · exact .inl (hs.trans hs')
    · exact .inr ⟨hp, hn, mode, hs.trans hd⟩
  · rcases h p with hs' | ⟨-, -, mode, hd'⟩
    · exact .inr ⟨hp, hs'.symm.trans hn, hd⟩
    · rw [hd'] at hn
      cases hn

theorem OnlyDirectories.mono {path' : List String} (h : OnlyDirectories fs fs' path)
    (hsub : path <+: path') : OnlyDirectories fs fs' path' := by
  intro p
  rcases h p with hs | ⟨hp, hr⟩
  · exact .inl hs
  · exact .inr ⟨hp.trans hsub, hr⟩

theorem OnlyDirectories.linkFree (h : OnlyDirectories fs fs' path) (hf : LinkFree fs cur comps) :
    LinkFree fs' cur comps := by
  intro pre hne hp t hl
  rcases h (cur ++ pre) with hs | ⟨-, -, mode, hd⟩
  · exact hf pre hne hp t (hs.symm.trans hl)
  · rw [hd] at hl
    cases hl

theorem mkdirExistOk_effect (limit : ℕ) (mode : ℕ) (hup : ".." ∉ path)
    (hfr : LinkFree fs [] path.dropLast) :
    OnlyDirectories fs (mkdirExistOk fs limit path mode).1 path := by
  unfold mkdirExistOk
  rcases create_effect limit (.directory mode) hup hfr with ⟨hs, hf⟩ | ⟨hn, hm⟩
  · rcases hc : create fs limit path (.directory mode) with ⟨fs', e⟩
    rw [hc] at hs hf
    obtain rfl : fs' = fs := hs
    cases e with
    | none => exact absurd rfl hf
    | some e =>
      cases e with
      | noEntry => exact .refl _ _
      | _ => dsimp only; split <;> exact .refl _ _
  · rw [hm]
    intro p
    by_cases hp : p = path
    · exact .inr ⟨hp ▸ prefix_refl _, hp ▸ hn, mode, hp ▸ fs.set_self _ _⟩
    · exact .inl (fs.set_of_ne _ hp)

theorem mkdirs_effect (limit n : ℕ) (mode : ℕ) (hup : ".." ∉ path)
    (hf : LinkFree fs [] path.dropLast) :
    OnlyDirectories fs (mkdirs fs limit n path mode).1 path := by
  induction n generalizing path mode with
  | zero => exact mkdirExistOk_effect limit mode hup hf
  | succ n ih =>
    unfold mkdirs
    have hsub : path.dropLast <+: path := List.dropLast_prefix _
    have hup' : ".." ∉ path.dropLast := fun hmem => hup (dropLast_subset _ hmem)
    split
    · have hp := ih 0o777 hup' (hf.shorten (List.dropLast_prefix _))
      split
      next hr =>
        rw [hr] at hp
        exact hp.mono hsub
      next fs' hr =>
        rw [hr] at hp
        exact (hp.mono hsub).trans
          (mkdirExistOk_effect limit mode hup (hp.linkFree hf))
    · exact mkdirExistOk_effect limit mode hup hf

theorem chmod_effect (limit : ℕ) (mode : ℕ) (hup : ".." ∉ path) (hf : LinkFree fs [] path) :
    (chmod fs limit path mode).1 = fs ∨ (∃ m, fs path = some (.directory m)) ∧
        (chmod fs limit path mode).1 = fs.set path (.directory mode) ∨
      ∃ content m, fs path = some (.file content m) ∧
        (chmod fs limit path mode).1 = fs.set path (.file content mode) := by
  unfold chmod
  cases hp : resolve fs limit [] path with
  | error => exact .inl rfl
  | ok p =>
    obtain rfl : p = path := by simpa using resolve_linkFree hup hf hp
    cases hn : fs p with
    | none => exact .inl (by simp [hn])
    | some node =>
      cases node with
      | directory m => exact .inr (.inl ⟨⟨m, rfl⟩, by simp [hn]⟩)
      | file content m => exact .inr (.inr ⟨content, m, rfl, by simp [hn]⟩)
      | link => exact .inl (by simp [hn])

/-! ### When the operations succeed -/

/-! ### Links that stay in a directory -/

def Safe (isLink : List String → Bool) : List String → List String → Prop
  | _, [] => True
  | place, c :: rest =>
    if c = ".." then place ≠ [] ∧ Safe isLink place.dropLast rest
    else if isLink (place ++ [c]) then ".." ∉ rest
    else Safe isLink (place ++ [c]) rest

theorem safe_of_not_mem {isLink : List String → Bool} {place : List String} (h : ".." ∉ comps)
    : Safe isLink place comps := by
  induction comps generalizing place with
  | nil => trivial
  | cons c rest ih =>
    obtain ⟨hc, hr⟩ : c ≠ ".." ∧ ".." ∉ rest := by
      rw [mem_cons, not_or] at h
      exact ⟨fun heq => h.1 heq.symm, h.2⟩
    unfold Safe
    rw [if_neg hc]
    split
    · exact hr
    · exact ih hr

theorem Safe.append {isLink : List String → Bool} {place : List String}
    (h : Safe isLink place comps) (hr : ".." ∉ rest) : Safe isLink place (comps ++ rest) := by
  induction comps generalizing place with
  | nil => exact safe_of_not_mem hr
  | cons _ _ ih =>
    unfold Safe at h
    rw [cons_append]
    unfold Safe
    split at h
    next hc =>
      rw [if_pos hc]
      exact ⟨h.1, ih h.2⟩
    next hc =>
      rw [if_neg hc]
      split at h
      next hl =>
        rw [if_pos hl, mem_append, not_or]
        exact ⟨h, hr⟩
      next hl =>
        rw [if_neg hl]
        exact ih h

/-- **Safe links stay inside.** -/
theorem Visits.inside {root : List String} {isLink : List String → Bool}
    (hl : ∀ place t, fs (root ++ place) = some (.link t) → place ≠ [] →
      isLink place = true ∧ isAbsolute t = false ∧ Safe isLink place.dropLast (parts t))
    {cur' : List String} (h : Visits fs cur comps cur' comps') :
    ∀ place, cur = root ++ place → Safe isLink place comps →
      ∃ place', cur' = root ++ place' ∧ Safe isLink place' comps' := by
  induction h with
  | here => exact fun place hcu hs => ⟨place, hcu, hs⟩
  | @step _ _ _ c _ _ _ first _ ih =>
    intro place hcu hs
    subst hcu
    unfold advance at first
    unfold Safe at hs
    split at first
    next hc =>
      rw [if_pos hc] at hs
      cases first
      refine ih place.dropLast ?_ hs.2
      rw [dropLast_append_of_ne_nil hs.1]
    next hc =>
      rw [if_neg hc] at hs
      rw [List.append_assoc] at first
      split at first
      ·
        rename_i t ht
        obtain ⟨hln, hr, hta⟩ := hl (place ++ [c]) t ht (by simp)
        rw [if_pos hln] at hs
        rw [hr] at first
        cases first
        rw [dropLast_concat] at hta
        exact ih place rfl (hta.append hs)
      · cases first
        refine ih (place ++ [c]) rfl ?_
        split at hs
        · exact safe_of_not_mem hs
        · exact hs
      · split at first
        · cases first
          exact ih (place ++ [c]) rfl trivial
        · cases first
      · split at first
        · cases first
          exact ih (place ++ [c]) rfl trivial
        · cases first

end PosixFiles
