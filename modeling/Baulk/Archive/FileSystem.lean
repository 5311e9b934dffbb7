import Baulk.Archive.Contents

/-!
# Files that an extraction creates

`NewFile` and `NewSymlink` look whether something is at their path, and refuse to
go on if it must not be overwritten.  The file system is a parameter of the
model: it says how it answers, and its laws are what its calls are documented to
do.  Files and links are told apart from the paths that lead to them, since a
link has other paths lead to the same file.
-/

namespace Baulk.Archive

/-! ## The calls of the system -/

/-- The file system, as far as an extraction uses it. -/
structure FileSystem where
  State : Type
  /-- A file or a link. -/
  Object : Type
  /-- What a file or a link holds, if it exists. -/
  holds : State → Object → Option Leaf
  /-- The file or link at the path itself. -/
  occupant : State → WinPath → Option Object
  /-- The file that opening the path leads to, through links. -/
  target : State → WinPath → Option Object
  /-- `fs::exists`. -/
  fsExists : State → WinPath → Bool
  /-- `fs::is_directory`. -/
  isDirectory : State → WinPath → Bool
  /-- `fs::create_directories`. -/
  createDirectories : State → WinPath → Option SystemError × State
  /-- `CreateFileW` with `CREATE_ALWAYS`. -/
  createAlways : State → WinPath → Except SystemError Object × State
  /-- `SetFileTime` on an open file. -/
  setFileTime : State → Object → Time → Option SystemError × State
  /-- `CreateFileW` with `OPEN_EXISTING`, for a file or a folder. -/
  openExisting : State → WinPath → Option SystemError
  /-- `SetFileTime` on what was opened so. -/
  setTimeAt : State → WinPath → Time → Option SystemError × State
  /-- `WriteFile` on an open file until everything is written. -/
  writeFile : State → Object → Bytes → Option SystemError × State
  /-- `discard_fd`, whether it works or not.  Nobody looks at its result. -/
  discardFd : State → Object → State
  /-- `fs::remove_all`. -/
  removeAll : State → WinPath → State
  /-- `fs::create_symlink` of a link with this source. -/
  createSymlink : State → WString → WinPath → Option SystemError × State

/-- What the calls are documented to do. -/
structure FileSystem.Lawful (fs : FileSystem) : Prop where
  exists_of_target : ∀ s path, fs.target s path ≠ none →
    fs.fsExists s path = true
  createDirectories_holds : ∀ s path,
    fs.holds (fs.createDirectories s path).2 = fs.holds s
  createDirectories_target : ∀ s path path', fs.target s path = none →
    fs.target (fs.createDirectories s path').2 path = none
  createDirectories_occupant : ∀ s path path' o, fs.occupant s path = some o →
    fs.occupant (fs.createDirectories s path').2 path = some o
  /-- There is no folder where something else is. -/
  createDirectories_fails : ∀ s path, fs.occupant s path ≠ none →
    fs.isDirectory s path = false → (fs.createDirectories s path).1 ≠ none
  /-- The file that the path leads to is opened, or else a new one. -/
  createAlways_opens : ∀ s path o s', fs.createAlways s path = (.ok o, s') →
    fs.target s path = some o ∨ fs.target s path = none ∧ fs.holds s o = none
  createAlways_holds : ∀ s path o s', fs.createAlways s path = (.ok o, s') →
    ∀ o', o' ≠ o → fs.holds s' o' = fs.holds s o'
  createAlways_fails : ∀ s path e s', fs.createAlways s path = (.error e, s') →
    fs.holds s' = fs.holds s
  setFileTime_holds : ∀ s o t, fs.holds (fs.setFileTime s o t).2 = fs.holds s
  setTimeAt_holds : ∀ s path t, fs.holds (fs.setTimeAt s path t).2 = fs.holds s
  writeFile_holds : ∀ s o chunk o', o' ≠ o →
    fs.holds (fs.writeFile s o chunk).2 o' = fs.holds s o'
  discardFd_holds : ∀ s o o', o' ≠ o →
    fs.holds (fs.discardFd s o) o' = fs.holds s o'
  createSymlink_holds : ∀ s source path o leaf, fs.holds s o = some leaf →
    fs.holds (fs.createSymlink s source path).2 o = some leaf
  createSymlink_fails : ∀ s source path, fs.occupant s path ≠ none →
    (fs.createSymlink s source path).1 ≠ none

/-! ## Errors -/

/-- `path::native`. -/
def nativeText (p : WinPath) : WString :=
  p.rootName ++ (if p.rootDir then wide "\\" else []) ++
    WinPath.joinParts p.parts ++
    (if p.trailing then wide "\\" else [])

namespace FsError

theorem le_of_system (e : SystemError) : (e.value : Int) ≤ ErrorCode.errGeneral := by
  have hlt := e.lt
  rw [ErrorCode.errGeneral]
  omega

/-- An error of the system, with what the call is named. -/
def system (e : SystemError) (label : WString) : FsError :=
  ⟨label, e.value, e.pos, le_of_system e⟩

/-- The error for something that must not be overwritten. -/
def fileExists (path : WinPath) : FsError :=
  ⟨wide "file '" ++ nativeText path ++ wide "' exists", 0x4001, by decide, by decide⟩

end FsError

/-! ## Creating a file or a link -/

namespace FileSystem

variable (fs : FileSystem)

/-- The end of `NewFile`: create the file and set its time. -/
def createModified (path : WinPath) (modified : Time) (s : fs.State) :
    Except FsError fs.Object × fs.State :=
  match fs.createAlways s path with
  | (.error e, s) => (.error (.system e (wide "CreateFileW ")), s)
  | (.ok fd, s) =>
      match fs.setFileTime s fd modified with
      | (some e, s) =>
          (.error (.system e (wide "SetFileTime ")), fs.discardFd s fd)
      | (none, s) => (.ok fd, s)

def newFile (path : WinPath) (modified : Time) (overwriteMode : Bool)
    (s : fs.State) : Except FsError fs.Object × fs.State :=
  let prepared : Option FsError × fs.State :=
    if fs.fsExists s path then
      (if overwriteMode then none else some (.fileExists path), s)
    else
      let made := fs.createDirectories s path.parentPath
      (made.1.map fun e => .system e (wide "create_directories() "), made.2)
  match prepared with
  | (some e, s) => (.error e, s)
  | (none, s) => fs.createModified path modified s

def newSymlink (path : WinPath) (source : WString) (overwriteMode : Bool)
    (s : fs.State) : Option FsError × fs.State :=
  let prepared : Option FsError × fs.State :=
    if fs.fsExists s path then
      if overwriteMode then (none, fs.removeAll s path)
      else (some (.fileExists path), s)
    else
      let made := fs.createDirectories s path.parentPath
      (made.1.map fun e => .system e (wide "create_directories() "), made.2)
  match prepared with
  | (some e, s) => (some e, s)
  | (none, s) =>
      let made := fs.createSymlink s source path
      (made.1.map fun e => .system e (wide "create_symlink() "), made.2)

def chtimes (path : WinPath) (t : Time) (s : fs.State) :
    Option FsError × fs.State :=
  match fs.openExisting s path with
  | some e => (some (.system e (wide "CreateFileW() ")), s)
  | none =>
      let timed := fs.setTimeAt s path t
      (timed.1.map fun e => .system e (wide "SetFileTime "), timed.2)

def makeDirectories (path : WinPath) (modified : Time) (s : fs.State) :
    Option FsError × fs.State :=
  match fs.createDirectories s path with
  | (some e, s) =>
      (some (.system e (wide "fs::create_directories() '" ++ nativeText path ++
        wide "' ")), s)
  | (none, s) => fs.chtimes path modified s

/-! ## What is left as it is -/

/-- Everything that exists in the first state is the same in the second one. -/
def Spares (s s' : fs.State) : Prop :=
  ∀ o leaf, fs.holds s o = some leaf → fs.holds s' o = some leaf

variable {fs}

theorem Spares.of_holds {s s' : fs.State} (h : fs.holds s' = fs.holds s) :
    fs.Spares s s' := by
  intro o leaf hleaf
  rw [h, hleaf]

theorem Spares.trans {s s' s'' : fs.State} (h : fs.Spares s s')
    (h' : fs.Spares s' s'') : fs.Spares s s'' :=
  fun o leaf hleaf => h' o leaf (h o leaf hleaf)

/-- What happens to a file that did not exist leaves everything else. -/
theorem Spares.of_ne {s₀ s s' : fs.State} (h : fs.Spares s₀ s) {fd : fs.Object}
    (hfresh : fs.holds s₀ fd = none)
    (hrest : ∀ o, o ≠ fd → fs.holds s' o = fs.holds s o) : fs.Spares s₀ s' := by
  intro o leaf hleaf
  rw [hrest o, h o leaf hleaf]
  rintro rfl
  rw [hfresh] at hleaf
  contradiction

theorem Spares.fresh {s₀ s : fs.State} (h : fs.Spares s₀ s) {fd : fs.Object}
    (hfresh : fs.holds s fd = none) : fs.holds s₀ fd = none := by
  cases hfd : fs.holds s₀ fd with
  | none => rfl
  | some leaf =>
      rw [h fd leaf hfd] at hfresh
      contradiction

/-- The path leads to no file that existed in the state `s₀`. -/
def LeadsToNew (s₀ s : fs.State) (path : WinPath) : Prop :=
  ∀ o, fs.target s path = some o → fs.holds s₀ o = none

section Lawful

variable (hfs : fs.Lawful) {s₀ s s' : fs.State} (hspares : fs.Spares s₀ s)
include hfs hspares

theorem createModified_spares {path : WinPath} {modified : Time}
    {x : Except FsError fs.Object} (htarget : LeadsToNew s₀ s path)
    (h : fs.createModified path modified s = (x, s')) :
    fs.Spares s₀ s' ∧ ∀ fd, x = .ok fd → fs.holds s₀ fd = none := by
  unfold createModified at h
  rcases hcreate : fs.createAlways s path with ⟨e | fd, s₁⟩
  · rw [hcreate] at h
    cases h
    refine ⟨hspares.trans
      (.of_holds (hfs.createAlways_fails s path e s' hcreate)), ?_⟩
    intro fd hfd
    contradiction
  · have hfresh : fs.holds s₀ fd = none := by
      rcases hfs.createAlways_opens s path fd s₁ hcreate with hopen | ⟨-, hnew⟩
      · exact htarget fd hopen
      · exact hspares.fresh hnew
    have hcreated := hspares.of_ne hfresh
      (hfs.createAlways_holds s path fd s₁ hcreate)
    rw [hcreate] at h
    dsimp only at h
    have htimed := hfs.setFileTime_holds s₁ fd modified
    rcases htime : fs.setFileTime s₁ fd modified with ⟨_ | e, s₂⟩ <;>
      rw [htime] at h htimed <;> dsimp only at h htimed <;> cases h
    · refine ⟨hcreated.trans (.of_holds htimed), ?_⟩
      rintro _ ⟨⟩
      exact hfresh
    · refine ⟨(hcreated.trans (.of_holds htimed)).of_ne hfresh
        (hfs.discardFd_holds s₂ fd), ?_⟩
      intro fd hfd
      contradiction

/-- `NewFile` spares everything where nothing may be overwritten, and where
there is nothing to overwrite. -/
theorem newFile_spares {path : WinPath} (modified : Time) {overwrite : Bool}
    (htarget : overwrite = true → LeadsToNew s₀ s path) :
    fs.Spares s₀ (fs.newFile path modified overwrite s).2 ∧
      ∀ fd, (fs.newFile path modified overwrite s).1 = .ok fd →
        fs.holds s₀ fd = none := by
  rcases hnew : fs.newFile path modified overwrite s with ⟨x, s'⟩
  unfold newFile at hnew
  dsimp only at hnew
  by_cases hexists : fs.fsExists s path = true
  · rw [if_pos hexists] at hnew
    cases overwrite with
    | false =>
        cases hnew
        exact ⟨hspares, fun fd hfd => by contradiction⟩
    | true => exact createModified_spares hfs hspares (htarget rfl) hnew
  · rw [if_neg hexists] at hnew
    have hnone : fs.target s path = none := by
      by_contra hsome
      exact hexists (hfs.exists_of_target s path hsome)
    have hmade := hspares.trans
      (.of_holds (hfs.createDirectories_holds s path.parentPath))
    have hstill :=
      hfs.createDirectories_target s path path.parentPath hnone
    rcases hdirs : fs.createDirectories s path.parentPath with ⟨_ | e, s₁⟩ <;>
      rw [hdirs] at hnew hmade hstill <;> dsimp only [Option.map] at hnew
    · refine createModified_spares hfs hmade (fun o ho => ?_) hnew
      rw [hstill] at ho
      contradiction
    · cases hnew
      exact ⟨hmade, fun fd hfd => by contradiction⟩

end Lawful

section Lawful

variable (hfs : fs.Lawful)
include hfs

theorem newSymlink_spares (path : WinPath) (source : WString) (s : fs.State) :
    fs.Spares s (fs.newSymlink path source false s).2 := by
  unfold newSymlink
  by_cases hexists : fs.fsExists s path = true
  · rw [if_pos hexists]
    exact .of_holds rfl
  · rw [if_neg hexists]
    have hholds := hfs.createDirectories_holds s path.parentPath
    rcases hmade : fs.createDirectories s path.parentPath with ⟨_ | e, s₁⟩ <;>
      rw [hmade] at hholds <;> dsimp only [Option.map]
    · exact (Spares.of_holds hholds).trans
        fun o leaf => hfs.createSymlink_holds s₁ source path o leaf
    · exact .of_holds hholds

theorem makeDirectories_spares (path : WinPath) (modified : Time)
    (s : fs.State) : fs.Spares s (fs.makeDirectories path modified s).2 := by
  have hholds := hfs.createDirectories_holds s path
  unfold makeDirectories chtimes
  rcases hmade : fs.createDirectories s path with ⟨_ | e, s₁⟩ <;>
    rw [hmade] at hholds <;> dsimp only
  · split
    · exact .of_holds hholds
    · exact .of_holds ((hfs.setTimeAt_holds s₁ path modified).trans hholds)
  · exact .of_holds hholds

end Lawful

/-! ## A run of calls -/

/-- The file system, and the file that is open. -/
structure Volume (fs : FileSystem) where
  state : fs.State
  current : Option fs.Object := none

/-- What a call does: the error that it fails with, and what is left. -/
def Volume.act (v : fs.Volume) : Action → Option FsError × fs.Volume
  -- The file of the last entry is closed.
  | .entry _ => (none, { v with current := none })
  | .report _ => (none, v)
  | .createDirectories path =>
      let made := fs.createDirectories v.state path
      (made.1.map fun e => .system e (wide "fs::create_directories() '" ++
        nativeText path ++ wide "' "), { v with state := made.2 })
  | .makeDirectories path modified =>
      let made := fs.makeDirectories path modified v.state
      (made.1, { v with state := made.2 })
  | .newSymlink path source overwrite =>
      let made := fs.newSymlink path source overwrite v.state
      (made.1, { v with state := made.2 })
  | .newFile path modified overwrite =>
      match fs.newFile path modified overwrite v.state with
      | (.error e, s) => (some e, ⟨s, none⟩)
      | (.ok fd, s) => (none, ⟨s, some fd⟩)
  | .write chunk =>
      match v.current with
      | none => (none, v)
      | some fd =>
          let written := fs.writeFile v.state fd chunk
          (written.1.map fun e => .system e (wide "WriteFile() "),
            { v with state := written.2 })
  | .discard =>
      match v.current with
      | none => (none, v)
      | some fd => (none, ⟨fs.discardFd v.state fd, none⟩)

/-- The file system after the calls of a log. -/
def Volume.after (v : fs.Volume) (log : Log) : fs.Volume :=
  log.foldl (fun v action => (v.act action).2) v

/-- How the last call of a log fails. -/
def Volume.disk (v : fs.Volume) (log : Log) : Option FsError :=
  match log.getLast? with
  | none => none
  | some action => ((v.after log.dropLast).act action).1

@[simp]
theorem Volume.after_concat (v : fs.Volume) (log : Log) (action : Action) :
    v.after (log ++ [action]) = ((v.after log).act action).2 := by
  rw [Volume.after, Volume.after, List.foldl_append, List.foldl_cons,
    List.foldl_nil]

@[simp]
theorem Volume.disk_concat (v : fs.Volume) (log : Log) (action : Action) :
    v.disk (log ++ [action]) = ((v.after log).act action).1 := by
  rw [Volume.disk, List.getLast?_concat, List.dropLast_concat]

/-! ## What a run leaves as it is -/

namespace Volume

variable {s₀ : fs.State} {v : fs.Volume}

/-- Nothing that existed in the state `s₀` has changed, and the open file is a
new one. -/
structure Untouched (s₀ : fs.State) (v : fs.Volume) : Prop where
  spares : fs.Spares s₀ v.state
  current : ∀ fd, v.current = some fd → fs.holds s₀ fd = none

/-- The call does not ask for something that existed in the state `s₀` to be
overwritten. -/
def Careful (s₀ : fs.State) (v : fs.Volume) : Action → Prop
  | .newFile path _ overwrite =>
      overwrite = true → LeadsToNew s₀ v.state path
  | .newSymlink _ _ overwrite => overwrite = false
  | _ => True

/-- What existed in the state `s₀` stands at the path. -/
def Occupied (s₀ : fs.State) (v : fs.Volume) (path : WinPath) : Prop :=
  ∃ o, fs.occupant v.state path = some o ∧ fs.holds s₀ o ≠ none

/-- The call is to create something where something stands that existed in the
state `s₀`.  An entry for a folder does not collide with a link to a folder. -/
def Collides (s₀ : fs.State) (v : fs.Volume) : Action → Prop
  | .newFile path _ _ => v.Occupied s₀ path
  | .newSymlink path _ _ => v.Occupied s₀ path
  | .makeDirectories path _ =>
      v.Occupied s₀ path ∧ fs.isDirectory v.state path = false
  | _ => False

/-- The call looks at what is in its way and must not overwrite it. -/
def Notices (s₀ : fs.State) (v : fs.Volume) : Action → Prop
  | .newFile path _ overwrite => v.Occupied s₀ path →
      overwrite = false ∧ fs.fsExists v.state path = true
  | .newSymlink _ _ overwrite => overwrite = false
  | _ => True

section Lawful

variable (hfs : fs.Lawful)
include hfs

theorem Untouched.act (h : v.Untouched s₀) {action : Action}
    (hcareful : v.Careful s₀ action) : (v.act action).2.Untouched s₀ := by
  cases action with
  | entry index => exact ⟨h.spares, fun fd hfd => by contradiction⟩
  | report bytes => exact h
  | createDirectories path =>
      exact ⟨h.spares.trans
        (.of_holds (hfs.createDirectories_holds v.state path)), h.current⟩
  | makeDirectories path modified =>
      exact ⟨h.spares.trans (makeDirectories_spares hfs path modified v.state),
        h.current⟩
  | newSymlink path source overwrite =>
      have hkeep : overwrite = false := hcareful
      subst hkeep
      exact ⟨h.spares.trans (newSymlink_spares hfs path source v.state),
        h.current⟩
  | newFile path modified overwrite =>
      obtain ⟨hspares, hfresh⟩ := newFile_spares hfs h.spares modified hcareful
      unfold Volume.act
      dsimp only
      rcases hnew : fs.newFile path modified overwrite v.state with
        ⟨e | fd, s⟩ <;> rw [hnew] at hspares hfresh
      · exact ⟨hspares, fun fd hfd => by contradiction⟩
      · refine ⟨hspares, ?_⟩
        rintro _ ⟨⟩
        exact hfresh fd rfl
  | write chunk =>
      unfold Volume.act
      dsimp only
      rcases hcurrent : v.current with _ | fd
      · exact h
      · refine ⟨h.spares.of_ne (h.current fd hcurrent)
          (hfs.writeFile_holds v.state fd chunk), ?_⟩
        intro fd' hfd'
        exact h.current fd' (hcurrent.trans hfd')
  | discard =>
      unfold Volume.act
      dsimp only
      rcases hcurrent : v.current with _ | fd
      · exact h
      · exact ⟨h.spares.of_ne (h.current fd hcurrent)
          (hfs.discardFd_holds v.state fd), fun fd hfd => by contradiction⟩

theorem Untouched.after (h : v.Untouched s₀) {log : Log}
    (hcareful : ∀ before action, before ++ [action] <+: log →
      (v.after before).Careful s₀ action) : (v.after log).Untouched s₀ := by
  induction log using List.reverseRecOn with
  | nil => exact h
  | append_singleton log action ih =>
      rw [after_concat]
      refine (ih fun before action' hbefore => ?_).act hfs
        (hcareful log action (List.prefix_refl _))
      exact hcareful before action' (hbefore.trans (List.prefix_append _ _))

theorem act_of_collides {action : Action} (hnotices : v.Notices s₀ action)
    (hcollides : v.Collides s₀ action) : (v.act action).1 ≠ none := by
  cases action with
  | newFile path modified overwrite =>
      obtain ⟨rfl, hexists⟩ := hnotices hcollides
      unfold Volume.act newFile
      dsimp only
      rw [if_pos hexists]
      exact Option.some_ne_none _
  | newSymlink path source overwrite =>
      have hkeep : overwrite = false := hnotices
      subst hkeep
      obtain ⟨o, hoccupant, -⟩ := hcollides
      unfold Volume.act newSymlink
      dsimp only
      by_cases hexists : fs.fsExists v.state path = true
      · rw [if_pos hexists]
        exact Option.some_ne_none _
      · rw [if_neg hexists]
        have hstill := hfs.createDirectories_occupant v.state path
          path.parentPath o hoccupant
        rcases hdirs : fs.createDirectories v.state path.parentPath with
          ⟨_ | e, s₁⟩ <;> rw [hdirs] at hstill <;> dsimp only [Option.map]
        · have hfails := hfs.createSymlink_fails s₁ source path
            (by rw [hstill]; exact Option.some_ne_none o)
          rcases hmade : fs.createSymlink s₁ source path with ⟨_ | e, s₂⟩ <;>
            rw [hmade] at hfails
          · exact absurd rfl hfails
          · exact Option.some_ne_none _
        · exact Option.some_ne_none _
  | makeDirectories path modified =>
      obtain ⟨⟨o, hoccupant, -⟩, hfile⟩ := hcollides
      have hfails := hfs.createDirectories_fails v.state path
        (by rw [hoccupant]; exact Option.some_ne_none o) hfile
      unfold Volume.act makeDirectories
      dsimp only
      rcases hdirs : fs.createDirectories v.state path with ⟨_ | e, s₁⟩ <;>
        rw [hdirs] at hfails
      · exact absurd rfl hfails
      · exact Option.some_ne_none _
  | entry index => cases hcollides
  | createDirectories path => cases hcollides
  | report bytes => cases hcollides
  | write chunk => cases hcollides
  | discard => cases hcollides

end Lawful

end Volume

end FileSystem

/-- The calls of the host are those of a file system that starts in this
state. -/
def Host.RunsOn (host : Host) {fs : FileSystem} (s : fs.State) : Prop :=
  host.disk = FileSystem.Volume.disk ⟨s, none⟩

end Baulk.Archive
