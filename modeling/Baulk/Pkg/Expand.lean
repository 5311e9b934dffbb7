import Baulk.Fs.Flatten
import Baulk.Pkg.Lock

/-!
# Putting a package in place

`Expand` extracts an archive, moves the folder of the old version aside, moves
the new one in and writes the lock file.  A single program without an archive
gets a folder of its own.  Any of the operations may fail.
-/

namespace Baulk.Pkg

open Fs Support

/-! ## The steps -/

inductive ExtractMethod where
  | exe
  | msi
  | zip
  | sevenZip
  | tar
  | auto
  deriving DecidableEq

def extractMethods : List (WString × ExtractMethod) :=
  [(wide "exe", .exe), (wide "msi", .msi), (wide "zip", .zip),
    (wide "7z", .sevenZip), (wide "tar", .tar), (wide "auto", .auto)]

def resolveExtractHandle (extension : WString) : Option ExtractMethod :=
  (extractMethods.find? fun m => m.1 == extension).map Prod.snd

/-- `make_unqiue_extracted_destination`: the number of the first of hundred names
at which nothing is found. -/
def makeUniqueExtractedDestination (taken : Nat → Bool) : Option Nat :=
  (List.range 100).find? fun i => !taken i

/-- What an extraction leaves at the destination, and its error if it returns
false. -/
structure Extraction where
  error : Option ErrorCode
  destination : Entry Bytes

/-- What `Expand` gets from its environment. -/
structure ExpandHost where
  /-- The candidates for the destination that exist. -/
  taken : Nat → Bool
  /-- What a method makes of the archive, at the chosen destination. -/
  extract : ExtractMethod → Nat → Extraction
  /-- `exists` fails for the folder of the package. -/
  existsFails : Bool := false
  renameAside : Bool := false
  renameIn : Bool := false
  renameBack : Bool := false
  createDirectories : Bool := false
  /-- `copy_file` fails, with the part of the file that it leaves, if any. -/
  copyFile : Option (Option Bytes) := none
  remove : Option (List FileName → Bool) := none
  lock : LockHost := {}
  newLinks : Bool := true

/-- What belongs to a package on disk. -/
structure PackageDisk where
  pkgRoot : Entry Bytes
  /-- The path `<name>.old`. -/
  old : Entry Bytes
  /-- The path `<name>.out`. -/
  out : Entry Bytes
  lock : Option Json

structure ExpandRun where
  result : Bool
  disk : PackageDisk

/-- `exists(pkgRoot)`. -/
def ExpandHost.sees (host : ExpandHost) (disk : PackageDisk) : Bool :=
  !host.existsFails && disk.pkgRoot.isSome

def singleExe (pkg : Package) : WString :=
  pkg.name ++ wide ".exe"

def singlePackage (pkg : Package) : Package :=
  { pkg with
    links := pkg.links ++ [⟨singleExe pkg, singleExe pkg⟩]
    mask := pkg.mask ||| maskCompatibilityMode }

def singleFolder (pkg : Package) (content : Option Bytes) : Item FileName Bytes :=
  match content with
  | none => .folder .nil
  | some content => .folder (.file (.ofText (singleExe pkg)) content .nil)

/-- The old folder is moved to `<name>.out`, unless it is not seen. -/
def movedOut (host : ExpandHost) (disk : PackageDisk) : Option PackageDisk :=
  if host.sees disk then
    let (moved, pkgRoot, out) := rename host.renameAside disk.pkgRoot disk.out
    if moved then some { disk with pkgRoot, out } else none
  else some disk

/-- The path `<name>.out` is moved back. -/
def movedBack (host : ExpandHost) (disk : PackageDisk) : PackageDisk :=
  let (_, out, pkgRoot) := rename host.renameBack disk.out disk.pkgRoot
  { disk with pkgRoot, out }

/-- The end of `expand_fallback_exe`, with a new folder for the program. -/
def placeExe (host : ExpandHost) (pkg : Package) (archive : Bytes)
    (disk : PackageDisk) : ExpandRun :=
  match host.copyFile with
  | some left =>
      ⟨false, movedBack host
        { disk with pkgRoot := some (singleFolder pkg left) }⟩
  | none =>
      let disk := { disk with pkgRoot := some (singleFolder pkg (some archive)) }
      match packageLocalMetaWrite host.lock (singlePackage pkg) with
      | .error _ => ⟨false, disk⟩
      | .ok doc =>
          ⟨host.newLinks, { disk with
            out := (removeAll host.remove disk.out).2
            lock := some doc }⟩

/-- `expand_fallback_exe`, for an archive file with some content. -/
def expandFallbackExe (host : ExpandHost) (pkg : Package) (archive : Bytes)
    (disk : PackageDisk) : ExpandRun :=
  match movedOut host disk with
  | none => ⟨false, disk⟩
  | some disk =>
      -- `create_directories` returns false for a folder that exists.
      if host.createDirectories || disk.pkgRoot.isSome then
        ⟨false, movedBack host disk⟩
      else placeExe host pkg archive disk

/-- The lambda of `Expand`: the old folder is moved to `<name>.old` and the new
one is moved in. -/
def replaceRoot (host : ExpandHost) (destination : Entry Bytes)
    (disk : PackageDisk) : Bool × PackageDisk :=
  if host.sees disk then
    let (aside, pkgRoot, old) := rename host.renameAside disk.pkgRoot disk.old
    if aside then
      let (moved, _, pkgRoot) := rename host.renameIn destination pkgRoot
      if moved then
        (true, { disk with pkgRoot, old := (removeAll host.remove old).2 })
      else
        let (_, old, pkgRoot) := rename host.renameBack old pkgRoot
        (false, { disk with pkgRoot, old })
    else (false, disk)
  else
    let (moved, _, pkgRoot) := rename host.renameIn destination disk.pkgRoot
    (moved, { disk with pkgRoot })

def expand (host : ExpandHost) (pkg : Package) (archive : Bytes)
    (disk : PackageDisk) : ExpandRun :=
  match resolveExtractHandle pkg.extension,
      makeUniqueExtractedDestination host.taken with
  | some fn, some i =>
      match (host.extract fn i).error with
      | some ec =>
          if ec.code = ErrorCode.errNoOverlayArchive then
            expandFallbackExe host pkg archive disk
          else ⟨false, disk⟩
      | none =>
          let (replaced, disk) :=
            replaceRoot host (host.extract fn i).destination disk
          if replaced then
            match packageLocalMetaWrite host.lock pkg with
            | .error _ => ⟨false, disk⟩
            | .ok doc => ⟨host.newLinks, { disk with lock := some doc }⟩
          else ⟨false, disk⟩
  | _, _ => ⟨false, disk⟩

/-! ## What a failed installation leaves -/

/-- The folder and the lock file of a complete installation. -/
def completeNew (host : ExpandHost) (pkg : Package) (archive : Bytes) :
    Option (Item FileName Bytes × Json) :=
  match resolveExtractHandle pkg.extension,
      makeUniqueExtractedDestination host.taken with
  | some fn, some i =>
      match (host.extract fn i).error with
      | some ec =>
          if ec.code = ErrorCode.errNoOverlayArchive then
            some (singleFolder pkg (some archive),
              lockObject host.lock.now (singlePackage pkg))
          else none
      | none =>
          (host.extract fn i).destination.map fun item =>
            (item, lockObject host.lock.now pkg)
  | _, _ => none

/-- A run that fails leaves the old folder and the old lock file, or the new
folder and the new lock file. -/
def ExpandKeeps (host : ExpandHost) (pkg : Package) (archive : Bytes)
    (disk : PackageDisk) (run : ExpandRun) : Prop :=
  run.result = false →
    run.disk.pkgRoot = disk.pkgRoot ∧ run.disk.lock = disk.lock ∨
    ∃ item doc, completeNew host pkg archive = some (item, doc) ∧
      run.disk.pkgRoot = some item ∧ run.disk.lock = some doc

/-- With the old lock file, a folder is as good as the old one if it is the same,
or if it is the new one and the lock file says what the new one would say. -/
def Coincides (disk : PackageDisk) (new : Option (Item FileName Bytes × Json))
    (left : Entry Bytes) : Prop :=
  left = disk.pkgRoot ∨
    ∃ item doc, new = some (item, doc) ∧ left = some item ∧
      disk.lock = some doc

/-- The new folder is moved in. -/
def MovesIn (host : ExpandHost) (destination : Entry Bytes)
    (disk : PackageDisk) : Prop :=
  if host.sees disk then
    (rename host.renameAside disk.pkgRoot disk.old).1 = true ∧
      host.renameIn = false ∧ destination ≠ none
  else (rename host.renameIn destination disk.pkgRoot).1 = true

def lockFails (host : ExpandHost) : Bool :=
  host.lock.makeDirectories.isSome || host.lock.dumpError.isSome ||
    host.lock.writeError.isSome

/-- When moving the folders does not tear the package apart: a folder that was
moved aside is moved back if the new one is not moved in, and the lock file is
written if it is. -/
structure RootSafe (host : ExpandHost)
    (new : Option (Item FileName Bytes × Json)) (destination : Entry Bytes)
    (disk : PackageDisk) : Prop where
  back : host.sees disk = true →
    (rename host.renameAside disk.pkgRoot disk.old).1 = true →
    host.renameIn = true ∨ destination = none → host.renameBack = false
  lock : MovesIn host destination disk → lockFails host = true →
    Coincides disk new destination

/-- The folder of a single program is created. -/
def Creates (host : ExpandHost) (disk : PackageDisk) : Prop :=
  host.createDirectories = false ∧
    if host.sees disk then
      (rename host.renameAside disk.pkgRoot disk.out).1 = true
    else disk.pkgRoot = none

/-- The same for a single program.  Once its folder is created, nothing may
fail. -/
structure FallbackSafe (host : ExpandHost) (pkg : Package) (archive : Bytes)
    (new : Option (Item FileName Bytes × Json)) (disk : PackageDisk) : Prop where
  back : host.sees disk = true →
    (rename host.renameAside disk.pkgRoot disk.out).1 = true →
    host.createDirectories = true → host.renameBack = false
  stale : host.sees disk = false →
    host.createDirectories = true ∨ disk.pkgRoot ≠ none →
    Coincides disk new (rename host.renameBack disk.out disk.pkgRoot).2.2
  copy : Creates host disk → ∀ left, host.copyFile = some left →
    Coincides disk new (some (singleFolder pkg left))
  lock : Creates host disk → host.copyFile = none → lockFails host = true →
    Coincides disk new (some (singleFolder pkg (some archive)))

def ExtractionSafe (host : ExpandHost) (pkg : Package) (archive : Bytes)
    (disk : PackageDisk) (extraction : Extraction) : Prop :=
  match extraction.error with
  | none =>
      RootSafe host (completeNew host pkg archive) extraction.destination disk
  | some ec =>
      ec.code = ErrorCode.errNoOverlayArchive →
        FallbackSafe host pkg archive (completeNew host pkg archive) disk

/-- When `Expand` does not tear a package apart. -/
def ExpandSafe (host : ExpandHost) (pkg : Package) (archive : Bytes)
    (disk : PackageDisk) : Prop :=
  ∀ fn i, resolveExtractHandle pkg.extension = some fn →
    makeUniqueExtractedDestination host.taken = some i →
    ExtractionSafe host pkg archive disk (host.extract fn i)

/-! ## Every pattern of failures -/

theorem lockWrite_cases (host : ExpandHost) (pkg : Package) :
    (lockFails host = true ∧
      ∃ ec, packageLocalMetaWrite host.lock pkg = .error ec) ∨
    lockFails host = false ∧
      packageLocalMetaWrite host.lock pkg =
        .ok (lockObject host.lock.now pkg) := by
  unfold lockFails packageLocalMetaWrite
  cases host.lock.makeDirectories with
  | some ec => exact .inl ⟨rfl, ec, rfl⟩
  | none =>
      cases host.lock.dumpError with
      | some ec => exact .inl ⟨rfl, ec, rfl⟩
      | none =>
          cases host.lock.writeError with
          | some ec => exact .inl ⟨rfl, ec, rfl⟩
          | none => exact .inr ⟨rfl, rfl⟩

section Keeping

variable {host : ExpandHost} {pkg : Package} {archive : Bytes}
  {disk : PackageDisk} {new : Option (Item FileName Bytes × Json)}

theorem coincides_root : Coincides disk new disk.pkgRoot :=
  .inl rfl

theorem not_coincides_none (h : disk.pkgRoot ≠ none) :
    ¬ Coincides disk new none := by
  rintro (hroot | ⟨item, doc, -, hitem, -⟩)
  · exact h hroot.symm
  · cases hitem

theorem keeps_failed_iff {disk' : PackageDisk} (hlock : disk'.lock = disk.lock) :
    ExpandKeeps host pkg archive disk ⟨false, disk'⟩ ↔
      Coincides disk (completeNew host pkg archive) disk'.pkgRoot := by
  unfold ExpandKeeps Coincides
  simp only [forall_const, hlock, and_true]

theorem keeps_written {disk' : PackageDisk} {item : Item FileName Bytes}
    {doc : Json} (hnew : completeNew host pkg archive = some (item, doc))
    (hroot : disk'.pkgRoot = some item) (hlock : disk'.lock = some doc)
    (result : Bool) :
    ExpandKeeps host pkg archive disk ⟨result, disk'⟩ :=
  fun _ => .inr ⟨item, doc, hnew, hroot, hlock⟩

theorem sees_ne_none (h : host.sees disk = true) : disk.pkgRoot ≠ none := by
  intro hnone
  rw [ExpandHost.sees, hnone, Option.isSome_none, Bool.and_false] at h
  cases h

/-- What moving the folders leaves.  It tears the package apart only if the
folder that was moved aside is not moved back. -/
theorem replaceRoot_cases (host : ExpandHost) (destination : Entry Bytes)
    (disk : PackageDisk) (new : Option (Item FileName Bytes × Json)) :
    (∃ disk', replaceRoot host destination disk = (true, disk') ∧
      disk'.lock = disk.lock ∧ disk'.pkgRoot = destination ∧
      MovesIn host destination disk ∧ host.renameIn = false ∧
      destination ≠ none) ∨
    (∃ disk', replaceRoot host destination disk = (false, disk') ∧
      disk'.lock = disk.lock ∧ ¬ MovesIn host destination disk ∧
      (Coincides disk new disk'.pkgRoot ↔
        (host.sees disk = true →
          (rename host.renameAside disk.pkgRoot disk.old).1 = true →
          host.renameIn = true ∨ destination = none →
          host.renameBack = false))) := by
  unfold replaceRoot MovesIn
  cases hsees : host.sees disk with
  | false =>
      rw [if_neg nofun, if_neg nofun]
      rcases rename_cases host.renameIn destination disk.pkgRoot with
        hmove | ⟨hin, hne, hmove⟩
      · rw [hmove]
        exact .inr ⟨_, rfl, rfl, nofun, iff_of_true coincides_root nofun⟩
      · rw [hmove]
        exact .inl ⟨_, rfl, rfl, rfl, rfl, hin, hne⟩
  | true =>
      have hroot := sees_ne_none hsees
      rw [if_pos rfl, if_pos rfl]
      rcases rename_cases host.renameAside disk.pkgRoot disk.old with
        haside | ⟨-, -, haside⟩
      · rw [haside]
        exact .inr ⟨_, rfl, rfl, nofun, iff_of_true coincides_root nofun⟩
      · rw [haside]
        dsimp only
        rw [if_pos rfl]
        rcases rename_to_free host.renameIn destination with
          ⟨hin, hne, hmove⟩ | ⟨hfails, hmove⟩
        · rw [hmove]
          exact .inl ⟨_, rfl, rfl, rfl, ⟨rfl, hin, hne⟩, hin, hne⟩
        · have hnot : ¬ (host.renameIn = false ∧ destination ≠ none) := by
            rintro ⟨hin, hne⟩
            rcases hfails with hin' | hnone
            · rw [hin] at hin'
              cases hin'
            · exact hne hnone
          rw [hmove]
          dsimp only
          rw [if_neg nofun]
          rcases rename_to_free host.renameBack disk.pkgRoot with
            ⟨hback, -, hmove⟩ | ⟨hback, hmove⟩
          · rw [hmove]
            exact .inr ⟨_, rfl, rfl, fun h => hnot h.2,
              iff_of_true coincides_root fun _ _ _ => hback⟩
          · rw [hmove]
            refine .inr ⟨_, rfl, rfl, fun h => hnot h.2,
              iff_of_false (not_coincides_none hroot) fun h => ?_⟩
            have hback' := h rfl rfl hfails
            rcases hback with hback | hnone
            · rw [hback] at hback'
              cases hback'
            · exact hroot hnone

theorem keeps_extracted_iff {fn : ExtractMethod} {i : Nat}
    (hfn : resolveExtractHandle pkg.extension = some fn)
    (hi : makeUniqueExtractedDestination host.taken = some i)
    (herror : (host.extract fn i).error = none) :
    ExpandKeeps host pkg archive disk (expand host pkg archive disk) ↔
      RootSafe host (completeNew host pkg archive)
        (host.extract fn i).destination disk := by
  have hnew : completeNew host pkg archive =
      (host.extract fn i).destination.map fun item =>
        (item, lockObject host.lock.now pkg) := by
    unfold completeNew
    rw [hfn, hi]
    dsimp only
    rw [herror]
  unfold expand
  rw [hfn, hi]
  dsimp only
  rw [herror]
  dsimp only
  rcases replaceRoot_cases host (host.extract fn i).destination disk
      (completeNew host pkg archive) with
    ⟨disk', hrun, hlock, hroot, hmoves, hin, hne⟩ |
      ⟨disk', hrun, hlock, hmoves, hback⟩
  · rw [hrun]
    dsimp only
    rw [if_pos rfl]
    have hno : ¬ (host.renameIn = true ∨
        (host.extract fn i).destination = none) := by
      simp [hin, hne]
    rcases lockWrite_cases host pkg with ⟨hfails, ec, hwrite⟩ | ⟨hfails, hwrite⟩
    · rw [hwrite]
      dsimp only
      rw [keeps_failed_iff hlock, hroot]
      exact ⟨fun h => ⟨fun _ _ hno' => absurd hno' hno, fun _ _ => h⟩,
        fun h => h.lock hmoves hfails⟩
    · rw [hwrite]
      dsimp only
      obtain ⟨item, hitem⟩ := Option.ne_none_iff_exists'.mp hne
      rw [hitem] at hnew hroot
      refine iff_of_true (keeps_written hnew (by exact hroot) rfl _)
        ⟨fun _ _ hno' => absurd hno' hno, fun _ hfails' => ?_⟩
      rw [hfails] at hfails'
      cases hfails'
  · rw [hrun]
    dsimp only
    rw [if_neg nofun, keeps_failed_iff hlock, hback]
    exact ⟨fun h => ⟨h, fun hmoves' => absurd hmoves' hmoves⟩,
      fun h => h.back⟩

/-- After the folder of the program was created, nothing may fail. -/
theorem keeps_placeExe_iff {disk' : PackageDisk}
    (hnew : completeNew host pkg archive =
      some (singleFolder pkg (some archive),
        lockObject host.lock.now (singlePackage pkg)))
    (hlock : disk'.lock = disk.lock) :
    ExpandKeeps host pkg archive disk (placeExe host pkg archive disk') ↔
      (∀ left, host.copyFile = some left →
        Coincides disk (completeNew host pkg archive)
          (some (singleFolder pkg left))) ∧
      (host.copyFile = none → lockFails host = true →
        Coincides disk (completeNew host pkg archive)
          (some (singleFolder pkg (some archive)))) := by
  unfold placeExe
  cases hcopy : host.copyFile with
  | some left =>
      have hback : (movedBack host { disk' with
          pkgRoot := some (singleFolder pkg left) }).pkgRoot =
            some (singleFolder pkg left) := by
        cases left with
        | none => simp only [movedBack, singleFolder, rename_to_folder]
        | some content => simp only [movedBack, singleFolder, rename_to_folder]
      dsimp only
      rw [keeps_failed_iff (by exact hlock), hback]
      constructor
      · intro h
        refine ⟨?_, nofun⟩
        rintro _ ⟨⟩
        exact h
      · intro h
        exact h.1 left rfl
  | none =>
      dsimp only
      rcases lockWrite_cases host (singlePackage pkg) with
        ⟨hfails, ec, hwrite⟩ | ⟨hfails, hwrite⟩
      · rw [hwrite]
        dsimp only
        rw [keeps_failed_iff (by exact hlock)]
        exact ⟨fun h => ⟨nofun, fun _ _ => h⟩, fun h => h.2 rfl hfails⟩
      · rw [hwrite]
        refine iff_of_true (keeps_written hnew rfl rfl _) ⟨nofun, ?_⟩
        intro _ hfails'
        rw [hfails] at hfails'
        cases hfails'

theorem keeps_fallback_iff
    (hnew : completeNew host pkg archive =
      some (singleFolder pkg (some archive),
        lockObject host.lock.now (singlePackage pkg))) :
    ExpandKeeps host pkg archive disk
        (expandFallbackExe host pkg archive disk) ↔
      FallbackSafe host pkg archive (completeNew host pkg archive) disk := by
  unfold expandFallbackExe movedOut
  cases hsees : host.sees disk with
  | false =>
      rw [if_neg nofun]
      dsimp only
      by_cases hcreate : host.createDirectories = true ∨ disk.pkgRoot ≠ none
      · have hnot : ¬ Creates host disk := by
          rw [Creates, hsees, if_neg nofun]
          rintro ⟨hfault, hroot⟩
          rcases hcreate with hfault' | hroot'
          · rw [hfault] at hfault'
            cases hfault'
          · exact hroot' hroot
        rw [if_pos (by simpa [Option.isSome_iff_ne_none] using hcreate),
          keeps_failed_iff (by rfl)]
        refine ⟨fun h => ⟨?_, fun _ _ => h, fun h' => absurd h' hnot,
          fun h' => absurd h' hnot⟩, fun h => h.stale hsees hcreate⟩
        rw [hsees]
        nofun
      · rw [not_or, not_not] at hcreate
        have hcreates : Creates host disk := by
          rw [Creates, hsees, if_neg nofun]
          exact ⟨by simpa using hcreate.1, hcreate.2⟩
        rw [if_neg (by simpa using hcreate), keeps_placeExe_iff hnew rfl]
        constructor
        · rintro ⟨hcopy, hlock⟩
          refine ⟨?_, ?_, fun _ => hcopy, fun _ => hlock⟩
          · rw [hsees]
            nofun
          · rintro - (hfault | hroot)
            · exact absurd hfault hcreate.1
            · exact absurd hcreate.2 hroot
        · intro h
          exact ⟨h.copy hcreates, h.lock hcreates⟩
  | true =>
      have hroot := sees_ne_none hsees
      rw [if_pos rfl]
      rcases rename_cases host.renameAside disk.pkgRoot disk.out with
        haside | ⟨-, -, haside⟩
      · have hnot : ¬ Creates host disk := by
          rw [Creates, hsees, if_pos rfl, haside]
          nofun
        rw [haside]
        dsimp only
        rw [if_neg nofun]
        dsimp only
        rw [keeps_failed_iff rfl]
        refine iff_of_true coincides_root ⟨?_, ?_, fun h => absurd h hnot,
          fun h => absurd h hnot⟩
        · rw [haside]
          nofun
        · rw [hsees]
          nofun
      · rw [haside]
        dsimp only
        rw [if_pos rfl]
        dsimp only
        cases hfault : host.createDirectories with
        | true =>
            have hnot : ¬ Creates host disk := by
              rw [Creates, hfault]
              nofun
            rw [Bool.true_or, if_pos rfl, keeps_failed_iff (by rfl)]
            have hback : Coincides disk (completeNew host pkg archive)
                (movedBack host { disk with
                  pkgRoot := none, out := disk.pkgRoot }).pkgRoot ↔
                host.renameBack = false := by
              unfold movedBack
              rcases rename_to_free host.renameBack disk.pkgRoot with
                ⟨hback, -, hmove⟩ | ⟨hback, hmove⟩
              · rw [hmove]
                exact iff_of_true coincides_root hback
              · rw [hmove]
                refine iff_of_false (not_coincides_none hroot) ?_
                rw [hback.resolve_right hroot]
                nofun
            rw [hback]
            refine ⟨fun h => ⟨fun _ _ _ => h, ?_, fun h' => absurd h' hnot,
              fun h' => absurd h' hnot⟩, fun h => h.back hsees ?_ hfault⟩
            · rw [hsees]
              nofun
            · rw [haside]
        | false =>
            have hcreates : Creates host disk := by
              rw [Creates, hsees, if_pos rfl, haside]
              exact ⟨hfault, rfl⟩
            rw [Bool.false_or, Option.isSome_none, if_neg nofun,
              keeps_placeExe_iff hnew (by rfl)]
            constructor
            · rintro ⟨hcopy, hlock⟩
              refine ⟨?_, ?_, fun _ => hcopy, fun _ => hlock⟩
              · rw [hfault]
                nofun
              · rw [hsees]
                nofun
            · intro h
              exact ⟨h.copy hcreates, h.lock hcreates⟩

end Keeping

/-- `Expand` leaves the package in one piece exactly if it is safe: whatever
fails, what was moved aside is moved back, and nothing fails once the new folder
is in place. -/
theorem expand_keeps_iff (host : ExpandHost) (pkg : Package) (archive : Bytes)
    (disk : PackageDisk) :
    ExpandKeeps host pkg archive disk (expand host pkg archive disk) ↔
      ExpandSafe host pkg archive disk := by
  have hunchanged : ExpandKeeps host pkg archive disk ⟨false, disk⟩ :=
    fun _ => .inl ⟨rfl, rfl⟩
  cases hfn : resolveExtractHandle pkg.extension with
  | none =>
      unfold expand ExpandSafe
      rw [hfn]
      exact iff_of_true hunchanged nofun
  | some fn =>
      cases hi : makeUniqueExtractedDestination host.taken with
      | none =>
          unfold expand ExpandSafe
          rw [hfn, hi]
          exact iff_of_true hunchanged nofun
      | some i =>
          have hsafe : ExpandSafe host pkg archive disk ↔
              ExtractionSafe host pkg archive disk (host.extract fn i) := by
            constructor
            · intro h
              exact h fn i hfn hi
            · intro h fn' i' hfn' hi'
              rw [hfn] at hfn'
              rw [hi] at hi'
              cases hfn'
              cases hi'
              exact h
          rw [hsafe, ExtractionSafe]
          cases herror : (host.extract fn i).error with
          | none => exact keeps_extracted_iff hfn hi herror
          | some ec =>
              dsimp only
              unfold expand
              rw [hfn, hi]
              dsimp only
              rw [herror]
              dsimp only
              by_cases hoverlay : ec.code = ErrorCode.errNoOverlayArchive
              · have hnew : completeNew host pkg archive =
                    some (singleFolder pkg (some archive),
                      lockObject host.lock.now (singlePackage pkg)) := by
                  unfold completeNew
                  rw [hfn, hi]
                  dsimp only
                  rw [herror]
                  exact if_pos hoverlay
                rw [if_pos hoverlay, keeps_fallback_iff hnew]
                exact ⟨fun h _ => h, fun h => h hoverlay⟩
              · rw [if_neg hoverlay]
                exact iff_of_true hunchanged fun h => absurd h hoverlay

/-! ### A lock file that cannot be written -/

/-- Version `1.0` of a program is installed. -/
def installedDisk : PackageDisk where
  pkgRoot := some (.folder (.file (.ofText (wide "tool.exe")) [1] .nil))
  old := none
  out := none
  lock := some (lockObject [] { name := wide "tool", version := wide "1.0" })

/-- Version `2.0` is extracted, and the lock file is denied. -/
def deniedLock : ExpandHost where
  taken _ := false
  extract _ _ :=
    ⟨none, some (.folder (.file (.ofText (wide "tool.exe")) [2] .nil))⟩
  lock := { writeError := some (SystemError.accessDenied.toErrorCode []) }

def newerTool : Package :=
  { name := wide "tool", version := wide "2.0", extension := wide "zip" }

/-- The folder is the new one then, and the lock file the old one. -/
theorem expand_denied_lock :
    ¬ ExpandKeeps deniedLock newerTool [] installedDisk
      (expand deniedLock newerTool [] installedDisk) := by
  intro h
  rcases h rfl with ⟨hroot, -⟩ | ⟨item, doc, hnew, -, hlock⟩
  · revert hroot
    decide
  · cases hnew
    have hversion := congrArg
      (Option.map fun j : Json => j.get (narrow "version")) hlock
    revert hversion
    decide

end Baulk.Pkg
