import Baulk.Core.ErrorCode
import Baulk.Path.Windows
import Baulk.Support.FileTreePaths

/-!
# Flattening a folder

`MakeFlattened` replaces a folder that holds nothing but one folder, which may
again hold nothing but one folder, by the innermost of them.  It moves the inner
folder out, removes the outer one and moves the inner one back.  Nothing looks at
the errors of the two renames.

The place that the inner folder is moved to is built from the text of the path: it is
beside the outer folder only if the text ends in that folder's name.  For a text that
ends in a separator, in `.` or in `..` it is inside of the outer folder.
-/

namespace Baulk.Fs

open Support

variable {β : Type}

/-- A file name as the file system compares it, without regard to case. -/
structure FileName where
  text : WString
  lower : text.map asciiToLower = text
  deriving DecidableEq

theorem asciiToLower_idem (c : WChar) :
    asciiToLower (asciiToLower c) = asciiToLower c := by
  unfold asciiToLower
  split
  · rename_i h
    rw [if_neg]
    rw [UInt16.le_iff_toNat_le, UInt16.le_iff_toNat_le] at h ⊢
    have h : 65 ≤ c.toNat ∧ c.toNat ≤ 90 := h
    have hadd : (c + 0x20).toNat = c.toNat + 32 := by
      rw [UInt16.toNat_add]
      exact Nat.mod_eq_of_lt (by change c.toNat + 32 < 65536; omega)
    change ¬ (65 ≤ (c + 0x20).toNat ∧ (c + 0x20).toNat ≤ 90)
    omega
  · rfl

def FileName.ofText (text : WString) : FileName where
  text := text.map asciiToLower
  lower := by
    rw [List.map_map]
    exact List.map_congr_left fun c _ => asciiToLower_idem c

abbrev Directory (β : Type) := Folder FileName β

abbrev Entry (β : Type) := Option (Item FileName β)

/-! ## Finding the flat folder -/

def isBin (name : FileName) : Bool :=
  equalsIgnoreCase name.text (wide "bin")

/-- `flattened_recursive`: the folder to go on with, or nothing if the current
one is flat. -/
def flattenedRecursive (entries : Nat)
    (folder0 : Option (FileName × Directory β)) :
    Directory β → Option (FileName × Directory β)
  | .nil => if entries ≠ 1 then none else folder0
  | .file _ _ _ => none
  | .folder name inner rest =>
      if isBin name then none
      else flattenedRecursive (entries + 1) (some (name, inner)) rest

/-- The loop of `flattened_internal`: the path to the flat folder, and its
content. -/
def flattenedLoop : Nat → Directory β → Option (List FileName × Directory β)
  | 0, _ => none
  | i + 1, current =>
      match flattenedRecursive 0 none current with
      | none => some ([], current)
      | some (name, inner) =>
          (flattenedLoop i inner).map fun flat => (name :: flat.1, flat.2)

def flattened : Entry β → Option (List FileName × Directory β)
  | some (.folder current) => flattenedLoop 20 current
  | _ => none

/-! ## Moving it -/

/-- Which operations fail. -/
structure FlattenFaults where
  /-- The rename of the flat folder to the new path. -/
  renameOut : Bool := false
  /-- The removal of the outer folder, with the paths that stay. -/
  remove : Option (SystemError × (List FileName → Bool)) := none
  /-- The rename of the new path to the outer folder. -/
  renameIn : Bool := false

/-- The part of the file system that `MakeFlattened` works on. -/
structure FlattenSite (β : Type) where
  /-- The path `d` as it is given. -/
  path : WinPath
  processId : WString
  /-- The name of the folder itself. -/
  name : FileName
  /-- For a path that ends in `..`: the name of the folder in front of that. -/
  inner : FileName
  d : Entry β
  /-- What stands beside the folder under the name of the new path. -/
  newPath : Entry β

/-- Where the new path lies. -/
inductive NewPlace where
  /-- In the parent of the folder. -/
  | beside
  /-- In the folder. -/
  | inside
  /-- In a folder of this name in the folder. -/
  | below (name : FileName)
  deriving DecidableEq

namespace FlattenSite

/-- The name of the new path, `<filename>.<process>.new`. -/
def newName (site : FlattenSite β) : FileName :=
  .ofText (site.path.filename ++ wide "." ++ site.processId ++ wide ".new")

/-- The parent of the new path is `d.parent_path()`, which is the folder itself if
`d.filename()` is empty or a dot. -/
def place (site : FlattenSite β) : NewPlace :=
  if site.path.filename = [] ∨ site.path.filename = dotName then .inside
  else if site.path.filename = dotdotName then .below site.inner
  else .beside

/-- What stands at the new path, if it lies beside the folder. -/
def beside (site : FlattenSite β) : Entry β :=
  if site.place = .beside then site.newPath else none

def files (site : FlattenSite β) : List (FileName × β) :=
  itemFiles site.name site.d ++ itemFiles site.newName site.beside

end FlattenSite

/-- The error, if it returns false, and the site after it. -/
structure FlattenRun (β : Type) where
  error : Option ErrorCode
  site : FlattenSite β

/-- The folder after its flat folder was moved away. -/
def detached (path : List FileName) : Entry β → Entry β
  | some (.folder current) => some (.folder (current.detach path))
  | d => d

/-- The folder after its flat folder was moved to a new name in it.  A name that is taken
is not replaced, and a folder cannot be moved into itself. -/
def movedInside (place : NewPlace) (newName : FileName) (source : List FileName)
    (flat current : Directory β) : Directory β :=
  match place with
  | .beside => current
  | .inside =>
      if current.get newName ≠ none then current
      else (current.detach source).add newName (.folder flat)
  | .below name =>
      match current.get name with
      | some (.folder inner) =>
          if source = [name] ∨ inner.get newName ≠ none then current
          else current.set name
            (.folder ((inner.detach source.tail).add newName (.folder flat)))
      | _ => current

/-- `rename(*flat, newPath, e)`. -/
def moveOut (faults : FlattenFaults) (site : FlattenSite β) (source : List FileName)
    (flat : Directory β) : FlattenSite β :=
  match site.place with
  | .beside =>
      let (moved, _, newPath) :=
        rename faults.renameOut (some (.folder flat)) site.newPath
      { site with d := if moved then detached source site.d else site.d, newPath }
  | place =>
      match site.d, faults.renameOut with
      | some (.folder current), false =>
          { site with
            d := some (.folder (movedInside place site.newName source flat current)) }
      | _, _ => site

/-- `rename(newPath, d, e)`, after the folder was removed. -/
def moveBack (faults : FlattenFaults) (site : FlattenSite β) : FlattenSite β :=
  match site.place with
  | .beside =>
      let (_, newPath, d) := rename faults.renameIn site.newPath site.d
      { site with d, newPath }
  -- What was in the folder is gone with it.
  | _ => site

def makeFlattened (faults : FlattenFaults) (site : FlattenSite β) :
    FlattenRun β :=
  match flattened site.d with
  | none =>
      ⟨some (ErrorCode.general (wide "no conditions for a flattened path")),
        site⟩
  | some ([], _) => ⟨none, site⟩
  | some (name :: path, flat) =>
      let site := moveOut faults site (name :: path) flat
      let (_, d) := removeAll (faults.remove.map Prod.snd) site.d
      match faults.remove with
      | some (e, _) =>
          ⟨some (e.toErrorCode (wide "remove empty folder error: ")),
            { site with d }⟩
      | none => ⟨none, moveBack faults { site with d }⟩

/-! ## The flat folder -/

theorem flattenedRecursive_of_two {entries : Nat} (h : 2 ≤ entries)
    (folder0 : Option (FileName × Directory β)) (current : Directory β) :
    flattenedRecursive entries folder0 current = none := by
  induction current generalizing entries folder0 with
  | nil => exact if_pos (by omega)
  | file name content rest ih => rfl
  | folder name inner rest ihInner ih =>
      rw [flattenedRecursive]
      split
      · rfl
      · exact ih (by omega) _

/-- A folder is not flat if its only entry is a folder with another name than
`bin`. -/
theorem flattenedRecursive_eq_some_iff {current : Directory β}
    {name : FileName} {inner : Directory β} :
    flattenedRecursive 0 none current = some (name, inner) ↔
      current = .folder name inner .nil ∧ isBin name = false := by
  cases current with
  | nil => simp [flattenedRecursive]
  | file n content rest => simp [flattenedRecursive]
  | folder n inner' rest =>
      rw [flattenedRecursive]
      cases hbin : isBin n with
      | true =>
          rw [if_pos rfl]
          refine iff_of_false nofun ?_
          rintro ⟨h, hname⟩
          cases h
          rw [hbin] at hname
          cases hname
      | false =>
          rw [if_neg nofun]
          cases rest with
          | nil =>
              simp only [flattenedRecursive]
              constructor
              · rintro ⟨⟩
                exact ⟨rfl, hbin⟩
              · rintro ⟨⟨⟩, -⟩
                rfl
          | file n' content rest => simp [flattenedRecursive]
          | folder n' inner'' rest =>
              rw [flattenedRecursive]
              split
              · simp
              · rw [flattenedRecursive_of_two (by omega)]
                simp

theorem flattenedLoop_spec {i : Nat} {current flat : Directory β}
    {path : List FileName} (h : flattenedLoop i current = some (path, flat)) :
    flat.files = current.files ∧ flattenedRecursive 0 none flat = none ∧
      (path = [] → flat = current) := by
  induction i generalizing current path with
  | zero => cases h
  | succ i ih =>
      rw [flattenedLoop] at h
      cases hstep : flattenedRecursive 0 none current with
      | none =>
          rw [hstep] at h
          cases h
          exact ⟨rfl, hstep, fun _ => rfl⟩
      | some found =>
          obtain ⟨name, inner⟩ := found
          rw [hstep] at h
          obtain ⟨⟨path', flat'⟩, hloop, heq⟩ := Option.map_eq_some_iff.mp h
          cases heq
          obtain ⟨hfiles, hflat, -⟩ := ih hloop
          obtain ⟨rfl, -⟩ := flattenedRecursive_eq_some_iff.mp hstep
          refine ⟨?_, hflat, nofun⟩
          rw [hfiles, Folder.files, Folder.files, List.append_nil]

theorem flattened_spec {d : Entry β} {path : List FileName}
    {flat : Directory β} (h : flattened d = some (path, flat))
    (name : FileName) :
    itemFiles name d = flat.files ∧ flattenedRecursive 0 none flat = none ∧
      (path = [] → d = some (.folder flat)) := by
  rcases d with _ | (content | current)
  · cases h
  · cases h
  · obtain ⟨hfiles, hflat, hpath⟩ := flattenedLoop_spec h
    refine ⟨hfiles.symm, hflat, fun hnil => ?_⟩
    rw [hpath hnil]

theorem flattened_folder {flat : Directory β}
    (h : flattenedRecursive 0 none flat = none) :
    flattened (some (.folder flat)) = some ([], flat) := by
  rw [flattened, flattenedLoop, h]

/-! ## What flattening is for -/

/-- No file of the folder is lost, and if it returns true, the folder holds what
its flat folder held, and flattening it again changes nothing. -/
structure Flattens (site : FlattenSite β) (run : FlattenRun β) : Prop where
  kept : (itemFiles site.name site.d).Subperm run.site.files
  flat : run.error = none → ∃ path inner,
    flattened site.d = some (path, inner) ∧
      run.site.d = some (.folder inner)
  again : run.error = none → ∀ faults,
    makeFlattened faults run.site = ⟨none, run.site⟩

/-- There is nothing to move. -/
def Settled (d : Entry β) : Prop :=
  ∀ name path flat, flattened d ≠ some (name :: path, flat)

theorem not_settled_iff {d : Entry β} :
    ¬ Settled d ↔ ∃ name path flat, flattened d = some (name :: path, flat) := by
  simp [Settled]

/-- The flat folder can be moved out of the folder. -/
def MovesOut (faults : FlattenFaults) (site : FlattenSite β) : Prop :=
  site.place = .beside ∧ faults.renameOut = false ∧ site.newPath = none

/-- The flat folder is not moved out and nothing is lost all the same: removing the
outer folder fails and leaves all files, or the new path, beside the folder, holds the
same folder already. -/
def Spared (faults : FlattenFaults) (site : FlattenSite β) : Prop :=
  ∃ path flat, flattened site.d = some (path, flat) ∧
    match faults.remove with
    | some (_, stays) =>
        (itemFiles site.name site.d).Subperm
          (itemFiles site.name (removeAll (some stays) (moveOut faults site path flat).d).2 ++
            itemFiles site.newName site.beside)
    | none => faults.renameIn = false ∧ site.beside = some (.folder flat)

def FlattenSafe (faults : FlattenFaults) (site : FlattenSite β) : Prop :=
  Settled site.d ∨
    (MovesOut faults site ∧
      (faults.remove ≠ none ∨ faults.renameIn = false)) ∨
    (¬ MovesOut faults site ∧ Spared faults site)

/-- If there is nothing to move, nothing changes, and it returns true only for a
folder that is flat. -/
theorem makeFlattened_of_settled {site : FlattenSite β} (h : Settled site.d) :
    (flattened site.d = none ∧
      ∃ ec, ∀ faults, makeFlattened faults site = ⟨some ec, site⟩) ∨
      ∃ flat, flattened site.d = some ([], flat) ∧
        ∀ faults, makeFlattened faults site = ⟨none, site⟩ := by
  unfold makeFlattened
  rcases hflat : flattened site.d with _ | ⟨_ | ⟨name, path⟩, flat⟩
  · exact .inl ⟨rfl, _, fun _ => rfl⟩
  · exact .inr ⟨flat, rfl, fun _ => rfl⟩
  · exact absurd hflat (h name path flat)

theorem flattens_of_settled {faults : FlattenFaults} {site : FlattenSite β}
    (h : Settled site.d) : Flattens site (makeFlattened faults site) := by
  have hfiles : (itemFiles site.name site.d).Subperm site.files :=
    (List.sublist_append_left _ _).subperm
  rcases makeFlattened_of_settled h with ⟨-, ec, hrun⟩ | ⟨flat, hflat, hrun⟩
  · rw [hrun]
    exact ⟨hfiles, nofun, nofun⟩
  · rw [hrun]
    exact ⟨hfiles,
      fun _ => ⟨[], flat, hflat, (flattened_spec hflat site.name).2.2 rfl⟩,
      fun _ => hrun⟩

theorem makeFlattened_flat {faults : FlattenFaults} {site : FlattenSite β}
    {flat : Directory β} (h : flattenedRecursive 0 none flat = none)
    (hd : site.d = some (.folder flat)) :
    makeFlattened faults site = ⟨none, site⟩ := by
  unfold makeFlattened
  rw [hd, flattened_folder h]

section Moving

variable {faults : FlattenFaults} {site : FlattenSite β} {name : FileName}
  {path : List FileName} {flat : Directory β}

theorem beside_of_place {site : FlattenSite β} (h : site.place = .beside) :
    site.beside = site.newPath :=
  if_pos h

/-- The flat folder is moved out: removing the outer folder fails, or the flat
folder is moved back, or it stays where it is. -/
theorem makeFlattened_of_movesOut
    (hflat : flattened site.d = some (name :: path, flat))
    (hout : MovesOut faults site) :
    (∃ ec d, faults.remove ≠ none ∧ makeFlattened faults site =
      ⟨some ec, { site with d, newPath := some (.folder flat) }⟩) ∨
    (faults.remove = none ∧ faults.renameIn = false ∧
      makeFlattened faults site =
        ⟨none, { site with d := some (.folder flat), newPath := none }⟩) ∨
    (faults.remove = none ∧ faults.renameIn = true ∧
      makeFlattened faults site =
        ⟨none, { site with d := none, newPath := some (.folder flat) }⟩) := by
  obtain ⟨hplace, hrename, hnew⟩ := hout
  have hmove : moveOut faults site (name :: path) flat =
      { site with d := detached (name :: path) site.d, newPath := some (.folder flat) } := by
    unfold moveOut
    rw [hplace, hrename, hnew, rename_of_free]
    rfl
  have hback : ∀ d, moveBack faults { site with d, newPath := some (.folder flat) } =
      let moved := rename faults.renameIn (some (.folder flat)) d
      { site with d := moved.2.2, newPath := moved.2.1 } := by
    intro d
    unfold moveBack
    rw [show FlattenSite.place { site with d, newPath := some (.folder flat) } = .beside
      from hplace]
  unfold makeFlattened
  rw [hflat]
  dsimp only
  rw [hmove]
  cases faults.remove with
  | some fault => exact .inl ⟨_, _, nofun, rfl⟩
  | none =>
      dsimp only [Option.map_none]
      rw [hback]
      cases faults.renameIn with
      | false => exact .inr (.inl ⟨rfl, rfl, rfl⟩)
      | true => exact .inr (.inr ⟨rfl, rfl, rfl⟩)

/-- Nothing beside the folder changes if the flat folder is not moved out of it. -/
theorem moveOut_of_not_movesOut (hout : ¬ MovesOut faults site) (source : List FileName)
    (flat : Directory β) : ∃ d, moveOut faults site source flat = { site with d } := by
  unfold moveOut
  cases hplace : site.place with
  | beside =>
      dsimp only
      rw [rename_folder fun h => hout ⟨hplace, h⟩]
      exact ⟨_, rfl⟩
  | inside =>
      dsimp only
      split <;> exact ⟨_, rfl⟩
  | below inner =>
      dsimp only
      split <;> exact ⟨_, rfl⟩

theorem moveBack_removed (faults : FlattenFaults) (site : FlattenSite β) :
    ∃ newPath, moveBack faults { site with d := none } =
      { site with d := if faults.renameIn then none else site.beside, newPath } := by
  have hplace : FlattenSite.place { site with d := none } = site.place := rfl
  unfold moveBack FlattenSite.beside
  rw [hplace]
  cases site.place with
  | beside =>
      refine ⟨(rename faults.renameIn site.newPath none).2.1, ?_⟩
      cases faults.renameIn with
      | true => rfl
      | false =>
          cases site.newPath <;> simp [rename]
  | inside =>
      refine ⟨site.newPath, ?_⟩
      cases faults.renameIn <;> rfl
  | below inner =>
      refine ⟨site.newPath, ?_⟩
      cases faults.renameIn <;> rfl

/-- The flat folder is not moved out: all that is left is what was not removed,
or what stands beside the folder at the new path. -/
theorem makeFlattened_of_not_movesOut
    (hflat : flattened site.d = some (name :: path, flat))
    (hout : ¬ MovesOut faults site) :
    (∃ e stays ec, faults.remove = some (e, stays) ∧
      makeFlattened faults site = ⟨some ec, { site with
        d := (removeAll (some stays) (moveOut faults site (name :: path) flat).d).2 }⟩) ∨
    (faults.remove = none ∧ ∃ newPath, makeFlattened faults site =
      ⟨none, { site with d := if faults.renameIn then none else site.beside, newPath }⟩) := by
  obtain ⟨d, hmove⟩ := moveOut_of_not_movesOut hout (name :: path) flat
  unfold makeFlattened
  rw [hflat]
  dsimp only
  rw [hmove]
  cases faults.remove with
  | some fault =>
      exact .inl ⟨fault.1, fault.2, fault.1.toErrorCode (wide "remove empty folder error: "),
        rfl, rfl⟩
  | none =>
      obtain ⟨newPath, hback⟩ := moveBack_removed faults site
      exact .inr ⟨rfl, newPath, congrArg (FlattenRun.mk none) hback⟩

end Moving

/-- Flattening does what it is for exactly if there is nothing to move, or the
flat folder is moved out and is moved back unless removing the outer folder
fails, or it is not moved out and all is spared. -/
theorem makeFlattened_flattens_iff (faults : FlattenFaults)
    (site : FlattenSite β) :
    Flattens site (makeFlattened faults site) ↔ FlattenSafe faults site := by
  by_cases hsettled : Settled site.d
  · exact iff_of_true (flattens_of_settled hsettled) (.inl hsettled)
  · obtain ⟨name, path, flat, hflat⟩ := not_settled_iff.mp hsettled
    obtain ⟨hfiles, hstill, -⟩ := flattened_spec hflat site.name
    by_cases hout : MovesOut faults site
    · have hsafe : FlattenSafe faults site ↔
          faults.remove ≠ none ∨ faults.renameIn = false := by
        simp [FlattenSafe, hsettled, hout]
      rw [hsafe]
      rcases makeFlattened_of_movesOut hflat hout with
        ⟨ec, d, hremove, hrun⟩ | ⟨-, hin, hrun⟩ | ⟨hremove, hin, hrun⟩
      · rw [hrun]
        refine iff_of_true ⟨?_, nofun, nofun⟩ (.inl hremove)
        have hbeside : FlattenSite.beside { site with d, newPath := some (.folder flat) } =
            some (.folder flat) := beside_of_place hout.1
        rw [hfiles, FlattenSite.files, hbeside]
        exact (List.sublist_append_right _ _).subperm
      · rw [hrun]
        refine iff_of_true ⟨?_, fun _ => ⟨_, flat, hflat, rfl⟩,
          fun _ faults => makeFlattened_flat hstill rfl⟩ (.inr hin)
        rw [hfiles]
        exact (List.sublist_append_left _ _).subperm
      · rw [hrun]
        refine iff_of_false (fun h => ?_) (by simp [hremove, hin])
        obtain ⟨path', flat', -, hd⟩ := h.flat rfl
        cases hd
    · have hsafe : FlattenSafe faults site ↔ Spared faults site := by
        simp [FlattenSafe, hsettled, hout]
      rw [hsafe, Spared]
      rcases makeFlattened_of_not_movesOut hflat hout with
        ⟨e, stays, ec, hremove, hrun⟩ | ⟨hremove, newPath, hrun⟩
      · rw [hrun, hremove]
        constructor
        · intro h
          exact ⟨_, flat, hflat, h.kept⟩
        · rintro ⟨path', flat', hflat', hkept⟩
          rw [hflat] at hflat'
          cases hflat'
          exact ⟨hkept, nofun, nofun⟩
      · rw [hrun, hremove]
        constructor
        · intro h
          obtain ⟨path', flat', hflat', hd⟩ := h.flat rfl
          refine ⟨path', flat', hflat', ?_⟩
          dsimp only at hd ⊢
          cases hin : faults.renameIn with
          | true =>
              rw [hin] at hd
              cases hd
          | false =>
              rw [hin] at hd
              exact ⟨rfl, hd⟩
        · rintro ⟨path', flat', hflat', hin, hnew⟩
          rw [hflat] at hflat'
          cases hflat'
          rw [hin, if_neg nofun, hnew]
          refine ⟨?_, fun _ => ⟨_, flat, hflat, rfl⟩,
            fun _ faults => makeFlattened_flat hstill rfl⟩
          rw [hfiles]
          exact (List.sublist_append_left _ _).subperm

/-- A folder with one program, in a folder of its own. -/
def nestedSite (path : WString) : FlattenSite Bytes where
  path := WinPath.ofText path
  processId := wide "42"
  name := .ofText (wide "tool")
  inner := .ofText []
  d := some (.folder (.folder (.ofText (wide "tool-1.0"))
    (.file (.ofText (wide "tool.exe")) [77, 90] .nil) .nil))
  newPath := none

/-- If the program cannot be moved out, it is removed with the folder.  With a separator
behind the path this happens without any failure. -/
theorem makeFlattened_nested_denied :
    ¬ Flattens (nestedSite (wide "C:\\tool"))
        (makeFlattened { renameOut := true } (nestedSite (wide "C:\\tool"))) ∧
      ¬ Flattens (nestedSite (wide "C:\\tool\\"))
        (makeFlattened {} (nestedSite (wide "C:\\tool\\"))) := by
  constructor
  · intro h
    have hlength := h.kept.length_le
    revert hlength
    decide
  · intro h
    have hlength := h.kept.length_le
    revert hlength
    decide

end Baulk.Fs
