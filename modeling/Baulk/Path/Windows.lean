import Baulk.Core.Wide
import Baulk.Support.ComponentWalk

/-!
# `std::filesystem::path` on Windows

Only the lexical part of the library is modelled: how a text is decomposed
into root name, root directory and components, how `operator/` joins two
paths, and what the normal form below a root is.  Both slashes are separators.
The decomposition of root names is the one of the Windows implementation:
drive letters, `\\server`, and the three device prefixes.
-/

namespace Baulk

open Support (components collapse mem_components)

/-- `bela::IsPathSeparator`, also the separator test of `std::filesystem`. -/
def isPathSeparator (c : WChar) : Bool :=
  c == 0x5C || c == 0x2F

/-- The component `.`. -/
def dotName : WString := wide "."

/-- The component `..`. -/
def dotdotName : WString := wide ".."

def isDriveLetter (c : WChar) : Bool :=
  (0x41 ≤ c && c ≤ 0x5A) || (0x61 ≤ c && c ≤ 0x7A)

/-- A path decomposed as in `[fs.path.generic]`.  The `trailing` flag records
a separator after the last component (an empty final element).  Components are
non-empty and free of separators, and only a drive may be followed by
components without a root directory. -/
structure WinPath where
  rootName : WString
  rootDir : Bool
  parts : List WString
  trailing : Bool
  parts_valid : ∀ c ∈ parts, c ≠ [] ∧ ∀ x ∈ c, isPathSeparator x = false
  root_valid : rootDir = false → rootName ≠ [] → rootName.length ≠ 2 →
    parts = []

namespace WinPath

@[ext] theorem ext' {p q : WinPath} (hname : p.rootName = q.rootName)
    (hdir : p.rootDir = q.rootDir) (hparts : p.parts = q.parts)
    (htrailing : p.trailing = q.trailing) : p = q := by
  cases p
  cases q
  simp_all

/-- The text after `\` is one of the device prefixes `\?\`, `\.\` and `??\`,
followed by something that is not a separator. -/
def isDevicePrefix (c₁ c₂ : WChar) (tail : WString) : Bool :=
  ((isPathSeparator c₁ && (c₂ == 0x3F || c₂ == 0x2E)) ||
      (c₁ == 0x3F && c₂ == 0x3F)) &&
    match tail with
    | c₃ :: c₄ :: _ => isPathSeparator c₃ && !isPathSeparator c₄
    | [c₃] => isPathSeparator c₃
    | [] => false

def rootNameLength : WString → Nat
  | c₀ :: c₁ :: rest =>
      if isDriveLetter c₀ && c₁ == 0x3A then 2
      else if !isPathSeparator c₀ then 0
      else
        match rest with
        | [] => 0
        | c₂ :: tail =>
            if isDevicePrefix c₁ c₂ tail then 3
            else if isPathSeparator c₁ && !isPathSeparator c₂ then
              3 + (tail.takeWhile fun c => !isPathSeparator c).length
            else 0
  | _ => 0

/-- A root name is absent, a drive, or a longer name that ends at a separator
or at the end of the text. -/
theorem rootNameLength_cases (s : WString) :
    rootNameLength s = 0 ∨ rootNameLength s = 2 ∨
      (3 ≤ rootNameLength s ∧ rootNameLength s ≤ s.length ∧
        (s.drop (rootNameLength s) = [] ∨
          ((s.drop (rootNameLength s)).head?.map isPathSeparator).getD false =
            true)) := by
  match s with
  | [] => exact Or.inl rfl
  | [_] => exact Or.inl rfl
  | c₀ :: c₁ :: rest =>
      by_cases hdrive : (isDriveLetter c₀ && c₁ == 0x3A) = true
      · right
        left
        simp [rootNameLength, hdrive]
      · by_cases hsep : isPathSeparator c₀ = true
        · match rest with
          | [] =>
              left
              simp [rootNameLength, hdrive]
          | c₂ :: tail =>
              by_cases hdevice : isDevicePrefix c₁ c₂ tail = true
              · have hlen : rootNameLength (c₀ :: c₁ :: c₂ :: tail) = 3 := by
                  simp [rootNameLength, hdrive, hsep, hdevice]
                rw [hlen]
                refine Or.inr (Or.inr ⟨le_refl 3, by simp, Or.inr ?_⟩)
                match tail with
                | [] => simp [isDevicePrefix] at hdevice
                | [c₃] =>
                    simp only [isDevicePrefix, Bool.and_eq_true] at hdevice
                    simpa using hdevice.2
                | c₃ :: c₄ :: more =>
                    simp only [isDevicePrefix, Bool.and_eq_true] at hdevice
                    simpa using hdevice.2.1
              · by_cases hserver :
                    (isPathSeparator c₁ && !isPathSeparator c₂) = true
                · have hlen : rootNameLength (c₀ :: c₁ :: c₂ :: tail) =
                      3 + (tail.takeWhile fun c => !isPathSeparator c).length := by
                    simp [rootNameLength, hdrive, hsep, hdevice, hserver]
                  have hdrop : (c₀ :: c₁ :: c₂ :: tail).drop
                      (3 + (tail.takeWhile fun c => !isPathSeparator c).length) =
                        tail.dropWhile fun c => !isPathSeparator c := by
                    rw [← List.drop_drop]
                    have h := @List.drop_left _
                      (tail.takeWhile fun c => !isPathSeparator c)
                      (tail.dropWhile fun c => !isPathSeparator c)
                    rwa [List.takeWhile_append_dropWhile] at h
                  have hle := (List.takeWhile_prefix
                    (l := tail) fun c => !isPathSeparator c).length_le
                  rw [hlen, hdrop]
                  refine Or.inr (Or.inr ⟨by omega, ?_, ?_⟩)
                  · simp only [List.length_cons]
                    omega
                  · have hhead := List.head?_dropWhile_not
                      (fun c => !isPathSeparator c) tail
                    cases h : tail.dropWhile fun c => !isPathSeparator c with
                    | nil => exact Or.inl rfl
                    | cons c more =>
                        right
                        simpa [h] using hhead
                · left
                  simp [rootNameLength, hdrive, hsep, hdevice, hserver]
        · left
          simp [rootNameLength, hdrive, hsep]

/-- The path of a native text. -/
def ofText (s : WString) : WinPath :=
  let rest := s.drop (rootNameLength s)
  { rootName := s.take (rootNameLength s)
    rootDir := (rest.head?.map isPathSeparator).getD false
    parts := components isPathSeparator rest
    trailing := !(components isPathSeparator rest).isEmpty &&
      (rest.getLast?.map isPathSeparator).getD false
    parts_valid := fun _ hc => mem_components hc
    root_valid := by
      intro hdir hname htwo
      rcases rootNameLength_cases s with h | h | ⟨-, -, hrest | hrest⟩
      · simp [h] at hname
      · have hle : 2 ≤ s.length := by
          match s with
          | [] => simp [rootNameLength] at h
          | [_] => simp [rootNameLength] at h
          | _ :: _ :: _ => simp
        simp only [h, List.length_take] at htwo
        omega
      · simp [rest, hrest, components]
      · rw [hrest] at hdir
        contradiction }

/-- `path::is_absolute`: a drive needs a root directory, every other root name
is absolute by itself. -/
def isAbsolute (p : WinPath) : Bool :=
  if p.rootName.length = 2 then p.rootDir else !p.rootName.isEmpty

/-- A path on which `is_absolute` holds, such as a destination directory after
`fs::absolute`. -/
abbrev Absolute := {p : WinPath // p.isAbsolute = true}

/-- `path::operator/`.  An absolute right operand, or one with another root
name, replaces the left one; a root directory keeps only the root name. -/
def append (p q : WinPath) : WinPath :=
  if q.isAbsolute || (!q.rootName.isEmpty && q.rootName != p.rootName) then q
  else if hdir : q.rootDir = true then
    { q with
      rootName := p.rootName
      root_valid := fun h => absurd (hdir.symm.trans h) (by decide) }
  else
    { rootName := p.rootName
      rootDir := p.rootDir || (!p.rootName.isEmpty && p.rootName.length != 2)
      parts := p.parts ++ q.parts
      trailing := if q.parts.isEmpty then !p.parts.isEmpty else q.trailing
      parts_valid := fun c hc =>
        (List.mem_append.mp hc).elim (p.parts_valid c) (q.parts_valid c)
      root_valid := by
        intro h hname htwo
        simp [hname, htwo] at h }

/-- The same root with components taken from those of `p`. -/
def withParts (p : WinPath) (parts : List WString)
    (hparts : parts ⊆ p.parts) : WinPath :=
  { p with
    parts
    parts_valid := fun c hc => p.parts_valid c (hparts hc)
    root_valid := fun hdir hname htwo =>
      List.subset_nil.mp (p.root_valid hdir hname htwo ▸ hparts) }

def parentPath (p : WinPath) : WinPath :=
  if p.trailing then { p with trailing := false }
  else p.withParts p.parts.dropLast (List.dropLast_subset p.parts)

/-- `path::empty`. -/
def isEmpty (p : WinPath) : Bool :=
  p.rootName.isEmpty && !p.rootDir && p.parts.isEmpty

/-- `path::filename` as a text. -/
def filename (p : WinPath) : WString :=
  if p.trailing then [] else p.parts.getLast?.getD []

/-- The last dot of a name starts its extension, unless it is the first
character or the name is `..`. -/
def extensionIndex (name : WString) : Nat :=
  if name = dotdotName then name.length
  else
    match name.tail.reverse.findIdx? (· == 0x2E) with
    | none => name.length
    | some fromEnd => name.length - 1 - fromEnd

/-- A file name without and with the name of a stream behind a colon. -/
def splitStream (name : WString) : WString × WString :=
  name.span (· != 0x3A)

/-- `path::extension` of a file name. -/
def extension (name : WString) : WString :=
  let base := (splitStream name).1
  base.drop (extensionIndex base)

/-- `path::replace_extension` of a file name, by nothing. -/
def removeExtension (name : WString) : WString :=
  let (base, stream) := splitStream name
  base.take (extensionIndex base) ++ stream

example : extension (wide "a.tar.gz") = wide ".gz" ∧
    removeExtension (wide "a.tar.gz") = wide "a.tar" ∧
    extension (wide ".profile") = [] ∧ extension (wide "a.") = wide "." := by
  decide

/-- Components of the lexical normal form of a path with a root directory. -/
def normalParts (p : WinPath) : List WString :=
  collapse dotName dotdotName [] p.parts

/-- The normal form of `p` lies strictly below that of `root`: same root name,
and the components of `root` are a proper prefix. -/
def StrictlyBelow (root p : WinPath) : Prop :=
  p.rootName = root.rootName ∧ root.normalParts <+: p.normalParts ∧
    p.normalParts ≠ root.normalParts

/-- `p` has the root name of `root`, and its root directory if there is one. -/
def SameRoot (root p : WinPath) : Prop :=
  p.rootName = root.rootName ∧ (root.rootDir = true → p.rootDir = true)

/-- The normal form of `p` equals that of `root` or lies below it. -/
def AtOrBelow (root p : WinPath) : Prop :=
  SameRoot root p ∧ root.normalParts <+: p.normalParts

instance (root p : WinPath) : Decidable (StrictlyBelow root p) :=
  inferInstanceAs (Decidable (_ ∧ _ ∧ _))

instance (root p : WinPath) : Decidable (AtOrBelow root p) :=
  inferInstanceAs (Decidable ((_ ∧ (_ → _)) ∧ _))

/-- The lexical normal form of a path with a root directory. -/
def normalize (p : WinPath) : WinPath :=
  p.withParts p.normalParts (fun _ hc =>
    (Support.mem_collapse hc).elim (fun h => absurd h List.not_mem_nil)
      (fun h => h.1))

@[simp] theorem normalize_rootName (p : WinPath) :
    p.normalize.rootName = p.rootName := rfl

@[simp] theorem normalize_rootDir (p : WinPath) :
    p.normalize.rootDir = p.rootDir := rfl

/-- A normal form contains no `.` and no `..`, so it is its own normal form. -/
@[simp] theorem normalize_normalParts (p : WinPath) :
    p.normalize.normalParts = p.normalParts := by
  have hplain : ∀ c ∈ p.normalParts, c ≠ dotName ∧ c ≠ dotdotName := by
    intro c hc
    rcases Support.mem_collapse hc with h | ⟨-, h⟩
    · simp at h
    · exact h
  have hcollapse := Support.collapse_of_plain [] hplain
  rwa [List.nil_append] at hcollapse

/-- The directories a process is in: its current one, and the one remembered
for each drive. -/
structure CurrentDirs where
  current : WinPath
  ofDrive : WString → WinPath

/-- `fs::absolute`, which calls `GetFullPathNameW` and hence normalises. -/
def absolute (dirs : CurrentDirs) (p : WinPath) : WinPath :=
  if p.isAbsolute then p.normalize
  else if p.rootName.isEmpty then (dirs.current.append p).normalize
  else
    let full : WinPath :=
      { rootName := p.rootName
        rootDir := true
        parts := (dirs.ofDrive p.rootName).parts ++ p.parts
        trailing := p.trailing
        parts_valid := fun c hc =>
          (List.mem_append.mp hc).elim
            ((dirs.ofDrive p.rootName).parts_valid c) (p.parts_valid c)
        root_valid := by simp }
    full.normalize

/-- Components written one after the other with the preferred separator. -/
def joinParts (parts : List WString) : WString :=
  [(0x5C : WChar)].intercalate parts

/-- `path::native` with the preferred separator. -/
def text (p : WinPath) : WString :=
  p.rootName ++ (if p.rootDir then [0x5C] else []) ++ joinParts p.parts ++
    if p.trailing then [0x5C] else []

/-- The text of `fs::relative(p, base)`, that is, of `lexically_relative` of
the two normal forms.  It is empty when the roots do not agree, and trailing
separators do not count. -/
def relativeText (p base : WinPath) : WString :=
  if p.rootName ≠ base.rootName ∨ p.isAbsolute ≠ base.isAbsolute ∨
      (p.rootDir = false ∧ base.rootDir = true) then []
  else if p.rootDir = true ∧ base.rootDir = false then
    0x5C :: joinParts p.normalParts
  else
    match Support.mismatch p.normalParts base.normalParts with
    | ([], []) => dotName
    | (down, up) => joinParts (List.replicate up.length dotdotName ++ down)

/-! ## Decomposition of texts without a drive letter -/

theorem rootNameLength_of_relative {s : WString}
    (hcolon : (0x3A : WChar) ∉ s)
    (hsep : (s.head?.map isPathSeparator).getD false = false) :
    rootNameLength s = 0 := by
  match s with
  | [] => rfl
  | [_] => rfl
  | c₀ :: c₁ :: rest =>
      have hc₁ : c₁ ≠ 0x3A := by
        intro h
        exact hcolon (by simp [h])
      have hc₀ : isPathSeparator c₀ = false := by simpa using hsep
      simp [rootNameLength, hc₁, hc₀]

theorem ofText_of_relative {s : WString}
    (hcolon : (0x3A : WChar) ∉ s)
    (hsep : (s.head?.map isPathSeparator).getD false = false) :
    (ofText s).rootName = [] ∧ (ofText s).rootDir = false ∧
      (ofText s).parts = components isPathSeparator s := by
  have hzero := rootNameLength_of_relative hcolon hsep
  simp [ofText, hzero, hsep]

/-- A text that begins with a separator has a root directory or a root name
that is not a drive. -/
theorem ofText_of_rooted {s : WString}
    (hsep : (s.head?.map isPathSeparator).getD false = true) :
    ((ofText s).rootName = [] ∧ (ofText s).rootDir = true ∧
        (ofText s).parts = components isPathSeparator s) ∨
      3 ≤ (ofText s).rootName.length := by
  rcases rootNameLength_cases s with h | h | ⟨hthree, hle, -⟩
  · left
    simp [ofText, h, hsep]
  · -- A separator is not a drive letter.
    match s with
    | [] => simp at hsep
    | [_] => simp [rootNameLength] at h
    | c₀ :: c₁ :: rest =>
        have hc₀ : isPathSeparator c₀ = true := by simpa using hsep
        have hdrive : isDriveLetter c₀ = false := by
          simp only [isPathSeparator, Bool.or_eq_true, beq_iff_eq] at hc₀
          rcases hc₀ with rfl | rfl <;> decide
        simp only [rootNameLength, hdrive, hc₀, Bool.false_and,
          Bool.false_eq_true, if_false, Bool.not_true] at h
        split at h
        · contradiction
        · split at h
          · contradiction
          · split at h
            · omega
            · contradiction
  · right
    simp only [ofText, List.length_take]
    omega

end WinPath

end Baulk
