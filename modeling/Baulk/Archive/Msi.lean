import Baulk.Fs.Flatten
import Baulk.Path.Windows

/-!
# Flattening an extracted installer

An administrative installation leaves a copy of the installer and puts the files
into folders such as `Program Files`.  `msi::Extractor::MakeFlattened` drops the
copy, moves what is in these folders to the destination and removes them, with
whatever could not be moved.
-/

namespace Baulk.Archive.Msi

open Fs Support

variable {β : Type}

/-! ## The steps -/

def isPackage (name : FileName) : Bool :=
  equalsIgnoreCase (WinPath.extension name.text) (wide ".msi")

/-- The loop that drops the installer. -/
def dropPackages : Directory β → Directory β
  | .nil => .nil
  | .file name content rest =>
      if isPackage name then dropPackages rest
      else .file name content (dropPackages rest)
  | .folder name inner rest =>
      if isPackage name then dropPackages rest
      else .folder name inner (dropPackages rest)

/-- An entry of the folder `child` is renamed to its place in the destination,
of which `outer` is all but that folder. -/
def moveTo (child : FileName) (outer : Directory β) (name : FileName)
    (item : Item FileName β) : Directory β :=
  -- The name of the folder itself is taken by it.
  if name = child then outer
  else if (rename false (some item) (outer.get name)).1 then
    (outer.erase name).add name item
  else outer

/-- The lambda `overflow`. -/
def overflow (child : FileName) (outer : Directory β) :
    Directory β → Directory β
  | .nil => outer
  | .file name content rest =>
      overflow child (moveTo child outer name (.file content)) rest
  | .folder name inner rest =>
      overflow child (moveTo child outer name (.folder inner)) rest

/-- One round of the loop over the folders: `overflow`, and the folder is
removed. -/
def mergeChild (destination : Directory β) (child : FileName) : Directory β :=
  match destination.get child with
  | none => destination
  -- There is no listing of a file.
  | some (.file _) => destination.erase child
  | some (.folder inner) => overflow child (destination.erase child) inner

def childLists : List FileName :=
  [.ofText (wide "Program Files"), .ofText (wide "ProgramFiles64"),
    .ofText (wide "PFiles"), .ofText (wide "Files")]

/-- The destination before `fs::MakeFlattened`. -/
def merged (destination : Directory β) : Directory β :=
  childLists.foldl mergeChild (dropPackages destination)

/-- `msi::Extractor::MakeFlattened`, for a destination that exists. -/
def makeFlattened (site : FlattenSite β) (destination : Directory β) :
    FlattenRun β :=
  Fs.makeFlattened {} { site with d := some (.folder (merged destination)) }

/-! ## The files -/

/-- An entry can be moved without loss: its place is free, or it holds no
files. -/
def Movable (child : FileName) (outer : Directory β) (name : FileName)
    (item : Item FileName β) : Prop :=
  (name ≠ child ∧ outer.get name = none) ∨ itemFiles name (some item) = []

end Baulk.Archive.Msi
