import Mathlib.Data.List.Infix

/-!
# File systems as functions of paths

What stands at a path is a folder or a file with its content.  Whatever has
something below it is a folder; the operations fail where this would not stay so.
-/

namespace Baulk.Support

variable {κ β : Type}

/-- What stands at a path. -/
inductive Node (β : Type) where
  | dir
  | file (content : β)

def Node.isDir : Node β → Bool
  | .dir => true
  | .file _ => false

/-- A file system: what stands at each path. -/
@[ext]
structure PathMap (κ β : Type) where
  node : List κ → Option (Node β)
  root : node [] = some .dir
  closed : ∀ p x, node (p ++ [x]) ≠ none → node p = some .dir

namespace PathMap

/-- An empty file system. -/
def empty : PathMap κ β where
  node
    | [] => some .dir
    | _ :: _ => none
  root := rfl
  closed p x hx := by
    cases p with
    | nil => exact absurd rfl hx
    | cons a p => exact absurd rfl hx

/-- There is something at the path. -/
def exists? (m : PathMap κ β) (p : List κ) : Bool :=
  (m.node p).isSome

def isDir (m : PathMap κ β) (p : List κ) : Bool :=
  (m.node p).any Node.isDir

def isFile (m : PathMap κ β) (p : List κ) : Bool :=
  (m.node p).any fun n => !n.isDir

theorem isDir_iff {m : PathMap κ β} {p : List κ} :
    m.isDir p = true ↔ m.node p = some .dir := by
  unfold isDir
  rcases m.node p with _ | (_ | content)
  · simp
  · simp [Node.isDir]
  · simp [Node.isDir]

theorem isFile_iff {m : PathMap κ β} {p : List κ} :
    m.isFile p = true ↔ ∃ content, m.node p = some (.file content) := by
  unfold isFile
  rcases m.node p with _ | (_ | content)
  · simp
  · simp [Node.isDir]
  · simp [Node.isDir]

theorem exists_iff {m : PathMap κ β} {p : List κ} :
    m.exists? p = true ↔ m.node p ≠ none := by
  unfold exists?
  rcases m.node p with _ | n
  · simp
  · simp

theorem isDir_above {m : PathMap κ β} {p q : List κ} (h : p <+: q)
    (hne : p ≠ q) (hq : m.node q ≠ none) : m.node p = some .dir := by
  obtain ⟨rest, rfl⟩ := h
  induction rest using List.reverseRecOn with
  | nil => exact absurd (List.append_nil p).symm hne
  | append_singleton rest x ih =>
      rw [← List.append_assoc] at hq
      have hdir := m.closed _ x hq
      by_cases hrest : rest = []
      · rwa [hrest, List.append_nil] at hdir
      · refine ih ?_ (hdir ▸ Option.some_ne_none _)
        intro heq
        exact hrest (List.self_eq_append_right.mp heq)

theorem node_eq_none_below {m : PathMap κ β} {p q : List κ} (h : p <+: q)
    (hp : m.node p = none) : m.node q = none := by
  by_contra hq
  by_cases hne : p = q
  · exact hq (hne ▸ hp)
  · have hdir := isDir_above h hne hq
    rw [hp] at hdir
    cases hdir

/-! ## Creating folders -/

/-- No file stands on the way. -/
def clear (m : PathMap κ β) (path : List κ) : Bool :=
  path.inits.all fun p => !m.isFile p

theorem clear_iff {m : PathMap κ β} {path : List κ} :
    m.clear path = true ↔ ∀ p, p <+: path → m.isFile p = false := by
  simp [clear]

variable [DecidableEq κ]

def mkdirsNode (m : PathMap κ β) (path p : List κ) : Option (Node β) :=
  if p <+: path ∧ m.node p = none then some .dir else m.node p

theorem mkdirsNode_closed {m : PathMap κ β} {path : List κ}
    (h : m.clear path = true) (p : List κ) (x : κ)
    (hx : m.mkdirsNode path (p ++ [x]) ≠ none) :
    m.mkdirsNode path p = some .dir := by
  have hbelow : p <+: p ++ [x] := List.prefix_append p [x]
  unfold mkdirsNode at hx ⊢
  by_cases hp : m.node p = none
  · have hnone := node_eq_none_below hbelow hp
    by_cases hpath : p ++ [x] <+: path
    · rw [if_pos ⟨hbelow.trans hpath, hp⟩]
    · rw [if_neg fun h => hpath h.1] at hx
      exact absurd hnone hx
  · rw [if_neg fun h => hp h.2]
    by_cases hnode : m.node (p ++ [x]) = none
    · by_cases hpath : p ++ [x] <+: path
      · have hfile := clear_iff.mp h p (hbelow.trans hpath)
        rcases hkind : m.node p with _ | (_ | content)
        · exact absurd hkind hp
        · rfl
        · rw [isFile_iff.mpr ⟨content, hkind⟩] at hfile
          cases hfile
      · rw [if_neg fun h => hpath h.1] at hx
        exact absurd hnode hx
    · exact m.closed p x hnode

/-- Create the folders along a path, unless there is a file in the way. -/
def mkdirs (m : PathMap κ β) (path : List κ) : Option (PathMap κ β) :=
  if h : m.clear path = true then
    some {
      node := m.mkdirsNode path
      root := by simp [mkdirsNode, m.root]
      closed := mkdirsNode_closed h }
  else none

theorem mkdirs_eq_some {m m' : PathMap κ β} {path : List κ}
    (h : m.mkdirs path = some m') :
    m.clear path = true ∧ ∀ p, m'.node p =
      if p <+: path ∧ m.node p = none then some .dir else m.node p := by
  unfold mkdirs at h
  split at h
  · rename_i hclear
    cases h
    exact ⟨hclear, fun p => rfl⟩
  · cases h

theorem mkdirs_ne_none {m : PathMap κ β} {path : List κ}
    (h : m.clear path = true) : ∃ m', m.mkdirs path = some m' := by
  unfold mkdirs
  rw [dif_pos h]
  exact ⟨_, rfl⟩

/-! ## Renaming -/

/-- The parent of the target is a folder, the source is not above the target, and
the target is free or both are files. -/
structure Renames (m : PathMap κ β) (source target : List κ) : Prop where
  found : m.node source ≠ none
  proper : target ≠ []
  parent : m.node target.dropLast = some .dir
  apart : ¬ source <+: target
  free : m.node target = none ∨ m.isFile source = true ∧ m.isFile target = true

def canRename (m : PathMap κ β) (source target : List κ) : Bool :=
  m.exists? source && !target.isEmpty && m.isDir target.dropLast &&
    !decide (source <+: target) &&
    (!m.exists? target || (m.isFile source && m.isFile target))

theorem canRename_iff {m : PathMap κ β} {source target : List κ} :
    m.canRename source target = true ↔ m.Renames source target := by
  have hfree : m.exists? target = false ↔ m.node target = none := by
    rw [← Bool.not_eq_true, exists_iff, not_not]
  unfold canRename
  simp only [Bool.and_eq_true, Bool.or_eq_true, Bool.not_eq_true',
    decide_eq_false_iff_not, exists_iff, isDir_iff, hfree, List.isEmpty_eq_false_iff]
  constructor
  · rintro ⟨⟨⟨⟨hfound, hproper⟩, hparent⟩, hapart⟩, hfree⟩
    exact ⟨hfound, hproper, hparent, hapart, hfree⟩
  · rintro ⟨hfound, hproper, hparent, hapart, hfree⟩
    exact ⟨⟨⟨⟨hfound, hproper⟩, hparent⟩, hapart⟩, hfree⟩

def renameNode (m : PathMap κ β) (source target p : List κ) : Option (Node β) :=
  if target <+: p then m.node (source ++ p.drop target.length)
  else if source <+: p then none
  else m.node p

theorem renameNode_closed {m : PathMap κ β} {source target : List κ}
    (h : m.Renames source target) (p : List κ) (x : κ)
    (hx : m.renameNode source target (p ++ [x]) ≠ none) :
    m.renameNode source target p = some .dir := by
  have hbelow : p <+: p ++ [x] := List.prefix_append p [x]
  unfold renameNode at hx ⊢
  by_cases htarget : target <+: p
  · rw [if_pos (htarget.trans hbelow),
      List.drop_append_of_le_length htarget.length_le, ← List.append_assoc] at hx
    rw [if_pos htarget]
    exact m.closed _ x hx
  rw [if_neg htarget]
  by_cases hnew : target <+: p ++ [x]
  · -- the target itself is below the path
    have heq : target = p ++ [x] := by
      rcases List.prefix_concat_iff.mp hnew with heq | hprefix
      · exact heq
      · exact absurd hprefix htarget
    have hparent := h.parent
    rw [heq, List.dropLast_concat] at hparent
    rw [if_neg fun hp => h.apart (heq ▸ hp.trans hbelow)]
    exact hparent
  · rw [if_neg hnew] at hx
    by_cases hsource : source <+: p
    · rw [if_pos (hsource.trans hbelow)] at hx
      exact absurd rfl hx
    · rw [if_neg hsource]
      split at hx
      · exact absurd rfl hx
      · exact m.closed p x hx

/-- Move what stands at a path, with all below it. -/
def rename (m : PathMap κ β) (source target : List κ) : Option (PathMap κ β) :=
  if h : m.canRename source target = true then
    some {
      node := m.renameNode source target
      root := by
        have hrename := canRename_iff.mp h
        unfold renameNode
        rw [if_neg fun hp => hrename.proper (List.prefix_nil.mp hp), if_neg, m.root]
        intro hp
        exact hrename.apart (List.prefix_nil.mp hp ▸ List.nil_prefix)
      closed := renameNode_closed (canRename_iff.mp h) }
  else none

theorem rename_eq_some {m m' : PathMap κ β} {source target : List κ}
    (h : m.rename source target = some m') :
    m.Renames source target ∧ ∀ p, m'.node p =
      if target <+: p then m.node (source ++ p.drop target.length)
      else if source <+: p then none else m.node p := by
  unfold rename at h
  split at h
  · rename_i hcan
    cases h
    exact ⟨canRename_iff.mp hcan, fun p => rfl⟩
  · cases h

theorem rename_ne_none {m : PathMap κ β} {source target : List κ}
    (h : m.Renames source target) : ∃ m', m.rename source target = some m' := by
  unfold rename
  rw [dif_pos (canRename_iff.mpr h)]
  exact ⟨_, rfl⟩

/-! ## Files -/

/-- Write a file in a folder that exists. -/
def write (m : PathMap κ β) (path : List κ) (content : β) :
    Option (PathMap κ β) :=
  if h : path ≠ [] ∧ m.isDir path.dropLast = true ∧ m.isDir path = false then
    some {
      node p := if p = path then some (.file content) else m.node p
      root := by rw [if_neg h.1.symm, m.root]
      closed := by
        intro p x hx
        by_cases heq : p ++ [x] = path
        · have hp : p ≠ path := by
            rw [← heq]
            simp
          have hparent := isDir_iff.mp h.2.1
          rw [← heq, List.dropLast_concat] at hparent
          rw [if_neg hp, hparent]
        · rw [if_neg heq] at hx
          have hdir := m.closed p x hx
          have hp : p ≠ path := by
            rintro rfl
            have hnot := h.2.2
            rw [isDir_iff.mpr hdir] at hnot
            cases hnot
          rw [if_neg hp, hdir] }
  else none

theorem write_eq_some {m m' : PathMap κ β} {path : List κ} {content : β}
    (h : m.write path content = some m') : ∀ p, m'.node p =
      if p = path then some (.file content) else m.node p := by
  unfold write at h
  split at h
  · cases h
    exact fun p => rfl
  · cases h

theorem write_ne_none {m : PathMap κ β} {path : List κ} (hproper : path ≠ [])
    (hparent : m.isDir path.dropLast = true) (hfree : m.isDir path = false)
    (content : β) : ∃ m', m.write path content = some m' := by
  unfold write
  rw [dif_pos ⟨hproper, hparent, hfree⟩]
  exact ⟨_, rfl⟩

def removeFile (m : PathMap κ β) (path : List κ) : PathMap κ β :=
  if h : m.isFile path = true then
    { node := fun p => if p = path then none else m.node p
      root := by
        rw [if_neg, m.root]
        rintro rfl
        obtain ⟨content, hfile⟩ := isFile_iff.mp h
        rw [m.root] at hfile
        cases hfile
      closed := by
        intro p x hx
        split at hx
        · exact absurd rfl hx
        · have hdir := m.closed p x hx
          rw [if_neg, hdir]
          rintro rfl
          obtain ⟨content, hfile⟩ := isFile_iff.mp h
          rw [hdir] at hfile
          cases hfile }
  else m

theorem removeFile_of_not_isFile {m : PathMap κ β} {path : List κ}
    (h : m.isFile path = false) : m.removeFile path = m := by
  unfold removeFile
  rw [dif_neg]
  rw [h]
  exact Bool.false_ne_true

theorem node_removeFile {m : PathMap κ β} {path p : List κ}
    (h : m.isDir path = false) :
    (m.removeFile path).node p = if p = path then none else m.node p := by
  unfold removeFile
  split
  · rfl
  · rename_i hfile
    by_cases hp : p = path
    · rw [if_pos hp, hp]
      rcases hnode : m.node path with _ | (_ | content)
      · rfl
      · rw [isDir_iff.mpr hnode] at h
        cases h
      · exact absurd (isFile_iff.mpr ⟨content, hnode⟩) hfile
    · rw [if_neg hp]

end PathMap

end Baulk.Support
