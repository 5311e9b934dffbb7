import Baulk.Path.Windows

/-!
# Files directly in a folder

A folder and a name are joined by `operator/`.  The result is a file directly in
the folder if the name is plain.  A name with a root is no name of a file in the
folder, unless it spells out the folder itself.
-/

namespace Baulk.WinPath

/-- The folder that a path stands for when a name is joined to it. -/
def folder (p : WinPath) : WinPath where
  rootName := p.rootName
  rootDir := p.rootDir || (!p.rootName.isEmpty && p.rootName.length != 2)
  parts := p.parts
  trailing := false
  parts_valid := p.parts_valid
  root_valid := by
    intro h hname htwo
    simp [hname, htwo] at h

/-- A file directly in a folder. -/
structure ChildOf (cwd p : WinPath) : Prop where
  parent : p.parentPath = cwd.folder
  named : p.filename ≠ []
  notDot : p.filename ≠ dotName
  notDotdot : p.filename ≠ dotdotName

/-- `operator/` takes the right path as it is. -/
def replaces (q cwd : WinPath) : Prop :=
  q.isAbsolute = true ∨ (q.rootName ≠ [] ∧ q.rootName ≠ cwd.rootName)

/-- A path that names a file directly in the folder: a plain name, or the folder
spelled out with a plain name behind it. -/
structure NamesChild (cwd q : WinPath) : Prop where
  trailing : q.trailing = false
  plain : ∃ c, c ≠ dotName ∧ c ≠ dotdotName ∧
    (q.replaces cwd ∧ q.rootName = cwd.rootName ∧
        q.rootDir = cwd.folder.rootDir ∧ q.parts = cwd.parts ++ [c] ∨
      ¬ q.replaces cwd ∧ q.rootDir = true ∧ cwd.folder.rootDir = true ∧
        q.parts = cwd.parts ++ [c] ∨
      ¬ q.replaces cwd ∧ q.rootDir = false ∧ q.parts = [c])

theorem filename_of_concat {p : WinPath} {front : List WString} {c : WString}
    (htrailing : p.trailing = false) (hparts : p.parts = front ++ [c]) :
    p.filename = c := by
  unfold filename
  rw [htrailing, hparts, List.getLast?_concat]
  rfl

theorem parentPath_rootName (p : WinPath) : p.parentPath.rootName = p.rootName := by
  unfold parentPath
  split
  · rfl
  · rfl

theorem parentPath_rootDir (p : WinPath) : p.parentPath.rootDir = p.rootDir := by
  unfold parentPath
  split
  · rfl
  · rfl

theorem parentPath_trailing (p : WinPath) : p.parentPath.trailing = false := by
  unfold parentPath
  split
  · rfl
  · rename_i h
    exact Bool.eq_false_of_not_eq_true h

theorem parentPath_parts {p : WinPath} (h : p.trailing = false) :
    p.parentPath.parts = p.parts.dropLast := by
  unfold parentPath
  rw [if_neg (by simp [h])]
  rfl

theorem childOf_iff {cwd p : WinPath} :
    ChildOf cwd p ↔ p.trailing = false ∧ p.rootName = cwd.rootName ∧
      p.rootDir = cwd.folder.rootDir ∧
      ∃ c, c ≠ dotName ∧ c ≠ dotdotName ∧ p.parts = cwd.parts ++ [c] := by
  constructor
  · rintro ⟨hparent, hnamed, hdot, hdotdot⟩
    have htrailing : p.trailing = false := by
      by_contra h
      apply hnamed
      unfold filename
      rw [Bool.eq_true_of_not_eq_false h]
      rfl
    have hparts : p.parts ≠ [] := by
      intro h
      apply hnamed
      unfold filename
      rw [htrailing, h]
      rfl
    have hconcat := (List.dropLast_append_getLast hparts).symm
    generalize p.parts.getLast hparts = c at hconcat
    have hname := filename_of_concat htrailing hconcat
    rw [hname] at hdot hdotdot
    have hroot := p.parentPath_rootName
    have hdir := p.parentPath_rootDir
    have hfront := parentPath_parts htrailing
    rw [hparent] at hroot hdir hfront
    refine ⟨htrailing, hroot.symm, hdir.symm, c, hdot, hdotdot, ?_⟩
    exact hconcat.trans (congrArg (· ++ [c]) hfront.symm)
  · rintro ⟨htrailing, hname, hdir, c, hdot, hdotdot, hparts⟩
    have hfilename := filename_of_concat htrailing hparts
    have hc : c ≠ [] := (p.parts_valid c (hparts ▸ by simp)).1
    refine ⟨?_, hfilename ▸ hc, hfilename ▸ hdot, hfilename ▸ hdotdot⟩
    apply ext'
    · exact p.parentPath_rootName.trans hname
    · exact p.parentPath_rootDir.trans hdir
    · rw [parentPath_parts htrailing, hparts, List.dropLast_concat]
      rfl
    · exact p.parentPath_trailing

section Append

variable {cwd q : WinPath}

theorem replaces_iff :
    (q.isAbsolute || (!q.rootName.isEmpty && q.rootName != cwd.rootName)) = true ↔
      q.replaces cwd := by
  unfold replaces
  simp

theorem append_of_replaces (h : q.replaces cwd) : cwd.append q = q := by
  unfold append
  rw [if_pos (replaces_iff.mpr h)]

/-- A name with a root directory keeps the root name of the folder. -/
theorem append_of_rootDir (h : ¬ q.replaces cwd) (hdir : q.rootDir = true) :
    (cwd.append q).rootName = cwd.rootName ∧ (cwd.append q).rootDir = true ∧
      (cwd.append q).parts = q.parts ∧ (cwd.append q).trailing = q.trailing := by
  unfold append
  rw [if_neg (mt replaces_iff.mp h), dif_pos hdir]
  exact ⟨rfl, hdir, rfl, rfl⟩

theorem append_of_relative (h : ¬ q.replaces cwd) (hdir : q.rootDir = false) :
    (cwd.append q).rootName = cwd.rootName ∧
      (cwd.append q).rootDir = cwd.folder.rootDir ∧
      (cwd.append q).parts = cwd.parts ++ q.parts ∧
      (cwd.append q).trailing =
        if q.parts.isEmpty then !cwd.parts.isEmpty else q.trailing := by
  unfold append
  rw [if_neg (mt replaces_iff.mp h), dif_neg (by simp [hdir])]
  exact ⟨rfl, rfl, rfl, rfl⟩

/-- Joining makes a file directly in the folder exactly if the name is one of
such a file. -/
theorem childOf_append_iff : ChildOf cwd (cwd.append q) ↔ NamesChild cwd q := by
  rw [childOf_iff]
  by_cases hrepl : q.replaces cwd
  · rw [append_of_replaces hrepl]
    constructor
    · rintro ⟨htrailing, hname, hdir, c, hdot, hdotdot, hparts⟩
      exact ⟨htrailing, c, hdot, hdotdot, .inl ⟨hrepl, hname, hdir, hparts⟩⟩
    · rintro ⟨htrailing, c, hdot, hdotdot, h⟩
      rcases h with ⟨-, hname, hdir, hparts⟩ | ⟨hnot, -⟩ | ⟨hnot, -⟩
      · exact ⟨htrailing, hname, hdir, c, hdot, hdotdot, hparts⟩
      · exact absurd hrepl hnot
      · exact absurd hrepl hnot
  by_cases hdir : q.rootDir = true
  · obtain ⟨hname, hroot, hparts, htrail⟩ := append_of_rootDir hrepl hdir
    rw [hname, hroot, hparts, htrail]
    constructor
    · rintro ⟨htrailing, -, hfolder, c, hdot, hdotdot, hconcat⟩
      exact ⟨htrailing, c, hdot, hdotdot,
        .inr (.inl ⟨hrepl, hdir, hfolder.symm, hconcat⟩)⟩
    · rintro ⟨htrailing, c, hdot, hdotdot, h⟩
      rcases h with ⟨hyes, -⟩ | ⟨-, -, hfolder, hconcat⟩ | ⟨-, hnodir, -⟩
      · exact absurd hyes hrepl
      · exact ⟨htrailing, rfl, hfolder.symm, c, hdot, hdotdot, hconcat⟩
      · exact absurd (hdir.symm.trans hnodir) (by decide)
  · have hnodir := Bool.eq_false_of_not_eq_true hdir
    obtain ⟨hname, hroot, hparts, htrail⟩ := append_of_relative hrepl hnodir
    rw [hname, hroot, hparts, htrail]
    constructor
    · rintro ⟨htrailing, -, -, c, hdot, hdotdot, hconcat⟩
      have hone : q.parts = [c] := List.append_cancel_left hconcat
      rw [hone] at htrailing
      exact ⟨htrailing, c, hdot, hdotdot, .inr (.inr ⟨hrepl, hnodir, hone⟩)⟩
    · rintro ⟨htrailing, c, hdot, hdotdot, h⟩
      rcases h with ⟨hyes, -⟩ | ⟨-, hyes, -⟩ | ⟨-, -, hone⟩
      · exact absurd hyes hrepl
      · exact absurd hyes hdir
      · rw [hone]
        exact ⟨htrailing, rfl, rfl, c, hdot, hdotdot, rfl⟩

end Append

/-! ## Renamed files -/

/-- The text of a name without separators, with a drive or without one. -/
theorem ofText_name {s : WString} (hsep : ∀ x ∈ s, isPathSeparator x = false)
    (hne : s.drop (rootNameLength s) ≠ []) :
    (ofText s).rootDir = false ∧ (ofText s).parts = [s.drop (rootNameLength s)] ∧
      (ofText s).trailing = false := by
  have hrest : ∀ x ∈ s.drop (rootNameLength s), isPathSeparator x = false :=
    fun x hx => hsep x (List.mem_of_mem_drop hx)
  refine ⟨?_, Support.components_of_forall_not_sep hne hrest, ?_⟩
  · change ((s.drop (rootNameLength s)).head?.map isPathSeparator).getD false = false
    rw [List.head?_eq_some_head hne]
    exact hrest _ (List.head_mem hne)
  · change (_ && ((s.drop (rootNameLength s)).getLast?.map isPathSeparator).getD
      false) = false
    rw [List.getLast?_eq_some_getLast hne, Option.map_some, Option.getD_some,
      hrest _ (List.getLast_mem hne), Bool.and_false]

theorem rootNameLength_name {s : WString}
    (hsep : ∀ x ∈ s, isPathSeparator x = false) :
    rootNameLength s = 0 ∨ rootNameLength s = 2 ∧ 2 ≤ s.length := by
  match s with
  | [] => exact .inl rfl
  | [_] => exact .inl rfl
  | c₀ :: c₁ :: rest =>
      have hc₀ := hsep c₀ List.mem_cons_self
      by_cases hdrive : (isDriveLetter c₀ && c₁ == 0x3A) = true
      · right
        simp [rootNameLength, hdrive]
      · left
        simp [rootNameLength, hdrive, hc₀]

theorem rootNameLength_append {base mark : WString}
    (hsep : ∀ x ∈ base, isPathSeparator x = false)
    (hmark : mark.head? = some 0x2D) :
    rootNameLength (base ++ mark) = rootNameLength base := by
  obtain ⟨tail, rfl⟩ : ∃ tail, mark = 0x2D :: tail :=
    ⟨mark.tail, List.eq_cons_of_mem_head? hmark⟩
  match base with
  | [] =>
      cases tail with
      | nil => rfl
      | cons c tail => simp [rootNameLength, isDriveLetter, isPathSeparator]
  | [c] =>
      have hc := hsep c List.mem_cons_self
      simp [rootNameLength, hc]
  | c₀ :: c₁ :: rest =>
      have hc₀ := hsep c₀ List.mem_cons_self
      simp [rootNameLength, hc₀]

/-- The condition for a file to be directly in `cwd` after its name was changed
behind the stem.  A stem that begins with a drive is taken for that drive. -/
def RenamedChild (cwd p : WinPath) : Prop :=
  let base := removeExtension p.filename
  if rootNameLength base = 2 ∧ base.take 2 ≠ p.rootName then
    cwd.rootName = base.take 2 ∧ cwd.rootDir = false ∧ cwd.parts = []
  else p.parentPath.folder = cwd.folder

theorem ChildOf.congr_folder {cwd cwd' p : WinPath} (h : ChildOf cwd p) :
    ChildOf cwd' p ↔ cwd.folder = cwd'.folder := by
  constructor
  · intro h'
    exact h.parent.symm.trans h'.parent
  · intro heq
    exact ⟨h.parent.trans heq, h.named, h.notDot, h.notDotdot⟩

theorem not_dots_of_mem {c : WString} (h : (0x2D : WChar) ∈ c) :
    c ≠ dotName ∧ c ≠ dotdotName := by
  constructor
  · rintro rfl
    exact absurd h (by decide)
  · rintro rfl
    exact absurd h (by decide)

theorem filename_noSep (p : WinPath) : ∀ x ∈ p.filename, isPathSeparator x = false := by
  unfold filename
  split
  · exact fun x hx => absurd hx List.not_mem_nil
  · cases hlast : p.parts.getLast? with
    | none => exact fun x hx => absurd hx List.not_mem_nil
    | some c => exact (p.parts_valid c (List.mem_of_getLast? hlast)).2

theorem mem_of_mem_removeExtension {name : WString} {x : WChar}
    (h : x ∈ removeExtension name) : x ∈ name := by
  unfold removeExtension splitStream at h
  simp only [List.span_eq_takeWhile_dropWhile, List.mem_append] at h
  rcases h with h | h
  · exact (List.takeWhile_prefix _).mem (List.mem_of_mem_take h)
  · exact (List.dropWhile_suffix _).mem h

theorem mem_of_mem_extension {name : WString} {x : WChar}
    (h : x ∈ extension name) : x ∈ name := by
  unfold extension splitStream at h
  simp only [List.span_eq_takeWhile_dropWhile] at h
  exact (List.takeWhile_prefix _).mem (List.mem_of_mem_drop h)

theorem childOf_append_name {cwd base q : WinPath} {c : WString}
    (hroot : q.rootName = [] ∨ q.rootName.length = 2) (hdir : q.rootDir = false)
    (hparts : q.parts = [c]) (htrailing : q.trailing = false) (hdot : c ≠ dotName)
    (hdotdot : c ≠ dotdotName) :
    ChildOf cwd (base.append q) ↔
      if q.rootName ≠ [] ∧ q.rootName ≠ base.rootName then
        cwd.rootName = q.rootName ∧ cwd.rootDir = false ∧ cwd.parts = []
      else base.folder = cwd.folder := by
  have habs : q.isAbsolute = false := by
    unfold isAbsolute
    rcases hroot with h | h
    · rw [h]
      rfl
    · rw [if_pos h, hdir]
  have hrepl : q.replaces base ↔ q.rootName ≠ [] ∧ q.rootName ≠ base.rootName :=
    or_iff_right (by simp [habs])
  by_cases h : q.rootName ≠ [] ∧ q.rootName ≠ base.rootName
  · have htwo : q.rootName.length = 2 := hroot.resolve_left h.1
    rw [if_pos h, append_of_replaces (hrepl.mpr h), childOf_iff]
    constructor
    · rintro ⟨-, hname, hfolder, c', -, -, hconcat⟩
      rw [hdir] at hfolder
      rw [hparts] at hconcat
      refine ⟨hname.symm, (Bool.or_eq_false_iff.mp hfolder.symm).1, ?_⟩
      exact (List.append_eq_singleton_iff.mp hconcat.symm).elim (fun h => h.1)
        fun h => absurd h.2 (List.cons_ne_nil _ _)
    · rintro ⟨hname, hnodir, hnil⟩
      refine ⟨htrailing, hname.symm, ?_, c, hdot, hdotdot, ?_⟩
      · rw [hdir]
        simp [folder, hnodir, hname, htwo]
      · rw [hparts, hnil, List.nil_append]
  · rw [if_neg h]
    apply ChildOf.congr_folder
    rw [childOf_append_iff]
    exact ⟨htrailing, c, hdot, hdotdot, .inr (.inr ⟨mt hrepl.mp h, hdir, hparts⟩)⟩

theorem childOf_renamed_iff {cwd p : WinPath} {mark : WString}
    (hsep : ∀ x ∈ mark, isPathSeparator x = false)
    (hmark : mark.head? = some 0x2D) :
    ChildOf cwd (p.parentPath.append
        (.ofText (removeExtension p.filename ++ mark))) ↔
      RenamedChild cwd p := by
  have hbase : ∀ x ∈ removeExtension p.filename, isPathSeparator x = false :=
    fun x hx => p.filename_noSep x (mem_of_mem_removeExtension hx)
  unfold RenamedChild
  generalize removeExtension p.filename = base at hbase
  have hall : ∀ x ∈ base ++ mark, isPathSeparator x = false := by
    intro x hx
    exact (List.mem_append.mp hx).elim (hbase x) (hsep x)
  have hlen : rootNameLength base ≤ base.length := by
    rcases rootNameLength_name hbase with h | ⟨h, hle⟩
    · omega
    · omega
  have hdash : (0x2D : WChar) ∈ (base ++ mark).drop (rootNameLength base) := by
    rw [List.drop_append_of_le_length hlen]
    exact List.mem_append_right _ (List.mem_of_head? hmark)
  have hnl := rootNameLength_append hbase hmark
  obtain ⟨hdir, hparts, htrailing⟩ := ofText_name hall
    (hnl ▸ List.ne_nil_of_mem hdash)
  have hroot : (ofText (base ++ mark)).rootName = base.take (rootNameLength base) := by
    change (base ++ mark).take (rootNameLength (base ++ mark)) = _
    rw [hnl, List.take_append_of_le_length hlen]
  rw [hnl] at hparts
  obtain ⟨hdot, hdotdot⟩ := not_dots_of_mem hdash
  have hdrive : (ofText (base ++ mark)).rootName = [] ∨
      (ofText (base ++ mark)).rootName.length = 2 := by
    rw [hroot]
    rcases rootNameLength_name hbase with h | ⟨h, hle⟩
    · left
      rw [h, List.take_zero]
    · right
      rw [h, List.length_take_of_le hle]
  rw [childOf_append_name hdrive hdir hparts htrailing hdot hdotdot, hroot,
    parentPath_rootName]
  rcases rootNameLength_name hbase with h | ⟨h, hle⟩
  · rw [h, List.take_zero, if_neg (fun hnot => hnot.1 rfl),
      if_neg (fun hnot => absurd (h.symm.trans hnot.1) (by decide))]
  · have hne : base.take 2 ≠ [] := by
      intro hnil
      have := congrArg List.length hnil
      rw [List.length_take_of_le hle] at this
      exact absurd this (by decide)
    simp only [h, hne, ne_eq, not_false_eq_true, true_and]

end Baulk.WinPath
