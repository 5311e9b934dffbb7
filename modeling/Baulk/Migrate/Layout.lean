import Baulk.Core.Wide
import Baulk.Support.PathMap

/-!
# Moving the folders of an installation

`moveFolder` renames a folder, or creates its target if there is nothing to
rename.  `Migrator::Execute` calls it for one folder after another.  The pairs of
folders keep out of each other's way, so what one call needs is not changed by
those before it, and what it has done is not undone by those after it.
-/

namespace Baulk.Migrate

open Support

/-- The folder of the installation; paths are relative to it. -/
abbrev Disk := PathMap WString Bytes

/-- A source and its target. -/
abbrev FolderPair := List WString × List WString

/-! ## One folder -/

/-- `MakeDirectories`.  If it fails, the folders above may have been made. -/
def makeDirectories (failure : Option Bool) (path : List WString) (m : Disk) :
    Bool × Disk :=
  if m.exists? path then (true, m)
  else
    match failure with
    | some made => (false, if made then (m.mkdirs path.dropLast).getD m else m)
    | none =>
        match m.mkdirs path with
        | some m' => (true, m')
        | none => (false, m)

/-- `MakeParentDirectories`, and then `rename`.  If one fails, the folders above
the target may have been made. -/
def moveInto (failure : Option Bool) (source target : List WString) (m : Disk) :
    Bool × Disk :=
  match (if m.exists? target.dropLast then some m
      else if failure = some false then none
      else m.mkdirs target.dropLast) with
  | none => (false, m)
  | some m =>
      if failure.isSome then (false, m)
      else
        match m.rename source target with
        | some m' => (true, m')
        | none => (false, m)

def moveFolder (failure : Option Bool) (pair : FolderPair) (m : Disk) :
    Bool × Disk :=
  if pair.1 = pair.2 ∧ m.exists? pair.1 then (true, m)
  else if m.isDir pair.1 then moveInto failure pair.1 pair.2 m
  else makeDirectories failure pair.2 m

/-- There is nothing to do for a pair. -/
def Settled (m : Disk) (pair : FolderPair) : Prop :=
  pair.1 = pair.2 ∧ m.exists? pair.1 = true ∨
    m.isDir pair.1 = false ∧ m.exists? pair.2 = true

/-- A pair can be moved: no file stands for the folder above the target, and the
target is free if there is a folder to rename. -/
def Movable (m : Disk) (pair : FolderPair) : Prop :=
  m.isFile pair.2.dropLast = false ∧
    (pair.1 = pair.2 ∨ m.isDir pair.1 = false ∨ m.exists? pair.2 = false)

/-- The target is below the root or below a folder there, and not below the
source. -/
structure Proper (pair : FolderPair) : Prop where
  short : pair.2.length ≤ 2
  nonempty : pair.2 ≠ []
  apart : pair.1 = pair.2 ∨ ¬ pair.1 <+: pair.2

/-- Some folders above a target were made, if that. -/
def Made (m : Disk) (target : List WString) (m' : Disk) : Prop :=
  ∀ p, m'.node p = m.node p ∨
    p <+: target ∧ m.node p = none ∧ m'.node p = some .dir

/-- What `moveFolder` can do. -/
inductive Moves (failure : Option Bool) (pair : FolderPair) (m : Disk) :
    Bool × Disk → Prop where
  | settled (h : Settled m pair) : Moves failure pair m (true, m)
  | created {m' : Disk} (hfailure : failure = none) (hmovable : Movable m pair)
      (hsource : m.isDir pair.1 = false) (hmade : Made m pair.2 m')
      (htarget : m'.node pair.2 = some .dir) : Moves failure pair m (true, m')
  | renamed {m' m₁ : Disk} (hfailure : failure = none)
      (hmovable : Movable m pair) (hsource : m.isDir pair.1 = true)
      (htarget : m.node pair.2 = none) (hmade : Made m pair.2 m₁)
      (hnode : ∀ p, m'.node p =
        if pair.2 <+: p then m₁.node (pair.1 ++ p.drop pair.2.length)
        else if pair.1 <+: p then none else m₁.node p) :
      Moves failure pair m (true, m')
  | failed {m' : Disk} (hmade : Made m pair.2.dropLast m') (hsettled : ¬ Settled m pair)
      (hmovable : failure = none → ¬ Movable m pair) :
      Moves failure pair m (false, m')

theorem Made.refl (m : Disk) (target : List WString) : Made m target m :=
  fun _ => .inl rfl

theorem made_of_mkdirs {m m' : Disk} {path target : List WString}
    (h : m.mkdirs path = some m') (hpath : path <+: target) :
    Made m target m' := by
  intro p
  rw [(PathMap.mkdirs_eq_some h).2]
  by_cases hp : p <+: path ∧ m.node p = none
  · rw [if_pos hp]
    exact .inr ⟨hp.1.trans hpath, hp.2, rfl⟩
  · rw [if_neg hp]
    exact .inl rfl

theorem Made.below_of {m m' : Disk} {path target : List WString}
    (h : Made m path m') (hpath : path <+: target) : Made m target m' := by
  intro p
  rcases h p with hsame | ⟨habove, hnone, hnew⟩
  · exact .inl hsame
  · exact .inr ⟨habove.trans hpath, hnone, hnew⟩

theorem Made.node {m m' : Disk} {target p : List WString}
    (h : Made m target m') (hp : m.node p ≠ none) : m'.node p = m.node p := by
  rcases h p with hsame | ⟨-, hnone, -⟩
  · exact hsame
  · exact absurd hnone hp

theorem Made.node_of_not {m m' : Disk} {target p : List WString}
    (h : Made m target m') (hp : ¬ p <+: target) : m'.node p = m.node p := by
  rcases h p with hsame | ⟨habove, -, -⟩
  · exact hsame
  · exact absurd habove hp

theorem above_of_short {p path : List WString} (hshort : path.length ≤ 2)
    (h : p <+: path) : p = path ∨ p = path.dropLast ∨ p = [] := by
  rcases path with _ | ⟨a, _ | ⟨b, _ | ⟨c, rest⟩⟩⟩
  · exact .inl (List.prefix_nil.mp h)
  · rcases p with _ | ⟨x, p⟩
    · exact .inr (.inr rfl)
    · obtain ⟨rfl, hp⟩ := List.cons_prefix_cons.mp h
      rw [List.prefix_nil.mp hp]
      exact .inl rfl
  · rcases p with _ | ⟨x, _ | ⟨y, p⟩⟩
    · exact .inr (.inr rfl)
    · obtain ⟨rfl, -⟩ := List.cons_prefix_cons.mp h
      exact .inr (.inl rfl)
    · obtain ⟨rfl, hp⟩ := List.cons_prefix_cons.mp h
      obtain ⟨rfl, hrest⟩ := List.cons_prefix_cons.mp hp
      rw [List.prefix_nil.mp hrest]
      exact .inl rfl
  · exact absurd hshort (by simp)

theorem clear_of_short {m : Disk} {path : List WString}
    (hshort : path.length ≤ 2) (hparent : m.isFile path.dropLast = false)
    (hpath : m.isFile path = false) : m.clear path = true := by
  apply PathMap.clear_iff.mpr
  intro p hp
  rcases above_of_short hshort hp with rfl | rfl | rfl
  · exact hpath
  · exact hparent
  · unfold PathMap.isFile
    rw [m.root]
    rfl

theorem isFile_eq_false {m : Disk} {p : List WString}
    (h : m.exists? p = false) : m.isFile p = false := by
  have hnone : m.node p = none := by
    rw [← Bool.not_eq_true, PathMap.exists_iff, not_not] at h
    exact h
  unfold PathMap.isFile
  rw [hnone]
  rfl

theorem exists_eq_false {m : Disk} {p : List WString} :
    m.exists? p = false ↔ m.node p = none := by
  rw [← Bool.not_eq_true, PathMap.exists_iff, not_not]

theorem isDir_of_exists {m : Disk} {p : List WString}
    (h : m.exists? p = true) (hfile : m.isFile p = false) :
    m.node p = some .dir := by
  rcases hkind : m.node p with _ | (_ | content)
  · exact absurd hkind (PathMap.exists_iff.mp h)
  · rfl
  · rw [PathMap.isFile_iff.mpr ⟨content, hkind⟩] at hfile
    cases hfile

theorem makeDirectories_moves {failure : Option Bool} {pair : FolderPair}
    {m : Disk} (hproper : Proper pair)
    (hfirst : ¬ (pair.1 = pair.2 ∧ m.exists? pair.1 = true))
    (hsource : m.isDir pair.1 = false) :
    Moves failure pair m (makeDirectories failure pair.2 m) := by
  unfold makeDirectories
  cases htarget : m.exists? pair.2 with
  | true =>
      rw [if_pos rfl]
      exact .settled (.inr ⟨hsource, htarget⟩)
  | false =>
      rw [if_neg Bool.false_ne_true]
      have hsettled : ¬ Settled m pair := by
        rintro (h | ⟨-, h⟩)
        · exact hfirst h
        · rw [htarget] at h
          cases h
      cases failure with
      | some made =>
          refine .failed ?_ hsettled nofun
          split
          · cases hmkdirs : m.mkdirs pair.2.dropLast with
            | none => exact .refl m _
            | some m' => exact made_of_mkdirs hmkdirs (List.prefix_refl _)
          · exact .refl m _
      | none =>
          cases hmkdirs : m.mkdirs pair.2 with
          | none =>
              refine .failed (.refl m _) hsettled fun _ hmovable => ?_
              obtain ⟨m', hm'⟩ := PathMap.mkdirs_ne_none
                (clear_of_short hproper.short hmovable.1 (isFile_eq_false htarget))
              rw [hmkdirs] at hm'
              cases hm'
          | some m' =>
              obtain ⟨hclear, hnode⟩ := PathMap.mkdirs_eq_some hmkdirs
              refine .created rfl ⟨?_, .inr (.inl hsource)⟩ hsource
                (made_of_mkdirs hmkdirs (List.prefix_refl _)) ?_
              · exact PathMap.clear_iff.mp hclear _ (List.dropLast_prefix _)
              · rw [hnode, if_pos ⟨List.prefix_refl _, exists_eq_false.mp htarget⟩]

theorem moveInto_moves {failure : Option Bool} {pair : FolderPair} {m : Disk}
    (hproper : Proper pair)
    (hfirst : ¬ (pair.1 = pair.2 ∧ m.exists? pair.1 = true))
    (hsource : m.isDir pair.1 = true) :
    Moves failure pair m (moveInto failure pair.1 pair.2 m) := by
  have hfound : m.node pair.1 = some .dir := PathMap.isDir_iff.mp hsource
  have hne : pair.1 ≠ pair.2 := by
    intro heq
    exact hfirst ⟨heq, PathMap.exists_iff.mpr (hfound ▸ Option.some_ne_none _)⟩
  have hapart : ¬ pair.1 <+: pair.2 := by
    rcases hproper.apart with heq | hapart
    · exact absurd heq hne
    · exact hapart
  have hsettled : ¬ Settled m pair := by
    rintro (h | ⟨h, -⟩)
    · exact hfirst h
    · rw [hsource] at h
      cases h
  have hbelow : ¬ pair.2 <+: pair.2.dropLast := by
    intro h
    have hlength := h.length_le
    have hpos := List.length_pos_iff.mpr hproper.nonempty
    rw [List.length_dropLast] at hlength
    omega
  -- the folder above the target exists in `m₁`
  have hrename : ∀ m₁ : Disk, Made m pair.2.dropLast m₁ →
      (m.isFile pair.2.dropLast = false → m₁.node pair.2.dropLast = some .dir) →
      (m₁.node pair.2.dropLast = some .dir → m.isFile pair.2.dropLast = false) →
      Moves failure pair m
        (if failure.isSome then (false, m₁)
        else
          match m₁.rename pair.1 pair.2 with
          | some m' => (true, m')
          | none => (false, m₁)) := by
    intro m₁ hmade hdir hdir'
    have hmade' : Made m pair.2 m₁ := hmade.below_of (List.dropLast_prefix _)
    have htarget : m₁.node pair.2 = m.node pair.2 := hmade.node_of_not hbelow
    have hsame : m₁.node pair.1 = some .dir := by
      rw [hmade.node (hfound ▸ Option.some_ne_none _), hfound]
    cases failure with
    | some made => exact .failed hmade hsettled nofun
    | none =>
        rw [if_neg (by simp)]
        cases hresult : m₁.rename pair.1 pair.2 with
        | some m' =>
            obtain ⟨hrenames, hnode⟩ := PathMap.rename_eq_some hresult
            have hfree : m.node pair.2 = none := by
              rcases hrenames.free with hfree | ⟨hfile, -⟩
              · rw [← htarget, hfree]
              · obtain ⟨content, hcontent⟩ := PathMap.isFile_iff.mp hfile
                rw [hsame] at hcontent
                cases hcontent
            exact .renamed rfl ⟨hdir' hrenames.parent,
              .inr (.inr (exists_eq_false.mpr hfree))⟩ hsource hfree hmade' hnode
        | none =>
            refine .failed hmade hsettled fun _ hmovable => ?_
            have hfree : m.node pair.2 = none := by
              rcases hmovable.2 with heq | hnot | hfree
              · exact absurd heq hne
              · rw [hsource] at hnot
                cases hnot
              · exact exists_eq_false.mp hfree
            obtain ⟨m', hm'⟩ := PathMap.rename_ne_none (m := m₁)
              ⟨hsame ▸ Option.some_ne_none _, hproper.nonempty,
                hdir hmovable.1, hapart, .inl (htarget.trans hfree)⟩
            rw [hresult] at hm'
            cases hm'
  unfold moveInto
  cases hparent : m.exists? pair.2.dropLast with
  | true =>
      rw [if_pos rfl]
      refine hrename m (.refl m _) (isDir_of_exists hparent) fun hdir => ?_
      unfold PathMap.isFile
      rw [hdir]
      rfl
  | false =>
      have hfile := isFile_eq_false hparent
      have hshort : pair.2.dropLast.length ≤ 1 := by
        have hle := hproper.short
        rw [List.length_dropLast]
        omega
      have habove : m.isFile pair.2.dropLast.dropLast = false := by
        have hroot : pair.2.dropLast.dropLast = [] := by
          apply List.length_eq_zero_iff.mp
          rw [List.length_dropLast]
          omega
        unfold PathMap.isFile
        rw [hroot, m.root]
        rfl
      obtain ⟨m₁, hmkdirs⟩ := PathMap.mkdirs_ne_none
        (clear_of_short (le_trans hshort (by decide)) habove hfile)
      rw [if_neg Bool.false_ne_true]
      by_cases hfails : failure = some false
      · rw [if_pos hfails]
        refine .failed (.refl m _) hsettled fun hnone => ?_
        rw [hnone] at hfails
        cases hfails
      · rw [if_neg hfails, hmkdirs]
        refine hrename m₁ (made_of_mkdirs hmkdirs (List.prefix_refl _))
          (fun _ => ?_) fun _ => hfile
        rw [(PathMap.mkdirs_eq_some hmkdirs).2,
          if_pos ⟨List.prefix_refl _, exists_eq_false.mp hparent⟩]

theorem moveFolder_moves {pair : FolderPair} (hproper : Proper pair)
    (failure : Option Bool) (m : Disk) :
    Moves failure pair m (moveFolder failure pair m) := by
  unfold moveFolder
  by_cases hfirst : pair.1 = pair.2 ∧ m.exists? pair.1 = true
  · rw [if_pos hfirst]
    exact .settled (.inl hfirst)
  · rw [if_neg hfirst]
    cases hsource : m.isDir pair.1 with
    | true =>
        rw [if_pos rfl]
        exact moveInto_moves hproper hfirst hsource
    | false =>
        rw [if_neg Bool.false_ne_true]
        exact makeDirectories_moves hproper hfirst hsource

end Baulk.Migrate
