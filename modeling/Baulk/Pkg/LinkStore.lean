import Baulk.Pkg.LinkTarget
import Baulk.Pkg.ReachablePath

/-!
# The directory of links

An installed package has links, which lead to files of the package, and
launchers, which are links to `baulk-lnk` or programs that are made by a
compiler.  `NewLinks` makes them in the directory of links and enters them in the
registry there; `DropLinks` removes what the registry says.  An installation
first drops the links of the package.
-/

namespace Baulk.Pkg

/-! ## The store -/

/-- What stands in the directory of links. -/
inductive LinkTarget where
  /-- A symbolic link. -/
  | symlink (path : WString)
  /-- A program that starts another one. -/
  | program (source : WString)
  deriving DecidableEq

/-- The directory of links with its registry.  The file system decides which
paths mean the same file. -/
structure LinkStore where
  registry : LinkFile
  links : WString → Option LinkTarget

/-- What an operation gets from its environment. -/
structure LinkEnv where
  host : LinkHost
  /-- The file that a path means. -/
  file : WString → WString
  /-- `std::filesystem::exists` below the folder of the package. -/
  present : WString → Bool
  /-- How `MakeDirectories(appLinks)` fails. -/
  directoriesError : Option ErrorCode := none
  /-- How a link cannot be deleted. -/
  deleteError : WString → Option ErrorCode := fun _ => none
  /-- How `create_symlink` fails where something stands already, or nothing. -/
  symlinkError : Bool → WString → Option ErrorCode
  /-- `LinkExecutor().Initialized()`. -/
  initialized : Bool := false
  /-- `FindProxyLauncher`. -/
  proxyLauncher : Except ErrorCode WString
  /-- How `Builder::Initialize` fails. -/
  builderError : Option ErrorCode := none
  /-- How a launcher cannot be compiled. -/
  compileError : LinkMeta → Option ErrorCode := fun _ => none
  /-- How a compiled launcher cannot be moved. -/
  renameError : WString → Option ErrorCode := fun _ => none

def LinkHost.linkPath (host : LinkHost) (aliasName : WString) : WString :=
  host.appLinks ++ wide "\\" ++ aliasName

/-- `AppPackageFolder`. -/
def LinkHost.packageFolder (host : LinkHost) (pkgName : WString) : WString :=
  host.appPackages ++ wide "\\" ++ pkgName

namespace LinkEnv

variable (env : LinkEnv)

/-- Another file under a path. -/
def write (path : WString) (target : Option LinkTarget) (store : LinkStore) : LinkStore :=
  { store with links := Function.update store.links (env.file path) target }

def pathExists (path : WString) (store : LinkStore) : Bool :=
  (store.links (env.file path)).isSome

/-- `ForceDeleteFolders`, `ForceDeleteFile`, `remove` or `remove_all` of a link,
none of which is asked how it went. -/
def delete (path : WString) (store : LinkStore) : LinkStore :=
  match env.deleteError path with
  | some _ => store
  | none => env.write path none store

def symLink (source path : WString) (store : LinkStore) : Except ErrorCode LinkStore :=
  match env.symlinkError (env.pathExists path store) path with
  | some ec => .error ec
  | none => .ok (env.write path (some (.symlink source)) store)

/-! ## Making links -/

/-- `path_reachable_cat`, below the folder of the package. -/
def reachable (pkg : Package) (lm : LinkMeta) : Option WString × WString :=
  pathReachableCat env.present (env.host.packageFolder pkg.name) lm.path lm.path

/-- The loop of `NewSymlinks` and of `NewProxyLaunchers`, which differ in where a
link leads to. -/
def symlinkLoop (leads : WString → WString) (pkg : Package) (forceoverwrite : Bool) :
    List LinkMeta → List LinkMeta → LinkStore → Except ErrorCode (List LinkMeta) × LinkStore
  | [], linkmetas, store => (.ok linkmetas, store)
  | lm :: lms, linkmetas, store =>
      match env.reachable pkg lm with
      | (none, _) => symlinkLoop leads pkg forceoverwrite lms linkmetas store
      | (some source, relativePath) =>
          let lnk := env.host.linkPath lm.aliasName
          let store :=
            if env.pathExists lnk store && forceoverwrite then env.delete lnk store else store
          match env.symLink (leads source) lnk store with
          | .error ec => (.error ec, store)
          | .ok store =>
              symlinkLoop leads pkg forceoverwrite lms
                (linkmetas ++ [⟨relativePath, lm.aliasName⟩]) store

/-- `LinkMetaStore`, on the registry of a store. -/
def storeMetas (linkmetas : List LinkMeta) (pkg : Package) (store : LinkStore) :
    Except ErrorCode Unit × LinkStore :=
  let stored := linkMetaStore env.host linkmetas pkg store.registry
  (stored.1, { store with registry := stored.2 })

/-- The links of a list, made and entered. -/
def makeSymlinks (leads : WString → WString) (pkg : Package) (forceoverwrite : Bool)
    (lms : List LinkMeta) (store : LinkStore) : Except ErrorCode Unit × LinkStore :=
  match env.directoriesError with
  | some ec => (.error ec, store)
  | none =>
      match env.symlinkLoop leads pkg forceoverwrite lms [] store with
      | (.error ec, store) => (.error ec, store)
      | (.ok linkmetas, store) => env.storeMetas linkmetas pkg store

def newSymlinks (pkg : Package) (forceoverwrite : Bool) (store : LinkStore) :
    Except ErrorCode Unit × LinkStore :=
  env.makeSymlinks id pkg forceoverwrite pkg.links store

def newProxyLaunchers (pkg : Package) (forceoverwrite : Bool) (store : LinkStore) :
    Except ErrorCode Unit × LinkStore :=
  match env.proxyLauncher with
  | .error ec => (.error ec, store)
  | .ok proxyLauncher =>
      env.makeSymlinks (fun _ => proxyLauncher) pkg forceoverwrite pkg.launchers store

/-- The end of `Builder::Compile`, where the program is moved to the directory of
links. -/
def compile (source : WString) (lm : LinkMeta) (store : LinkStore) :
    Except ErrorCode Unit × LinkStore :=
  match env.compileError lm with
  | some ec => (.error ec, store)
  | none =>
      let target := env.host.linkPath lm.aliasName
      let store := if env.pathExists target store then env.delete target store else store
      match env.renameError target with
      | some ec => (.error ec, store)
      | none => (.ok (), env.write target (some (.program source)) store)

/-- The loop of `NewLaunchers`. -/
def launcherLoop (pkg : Package) :
    List LinkMeta → List LinkMeta → LinkStore → List LinkMeta × LinkStore
  | [], linkmetas, store => (linkmetas, store)
  | lm :: lms, linkmetas, store =>
      match env.reachable pkg lm with
      | (none, _) => launcherLoop pkg lms linkmetas store
      | (some source, _) =>
          match env.compile source lm store with
          | (.error _, store) => launcherLoop pkg lms linkmetas store
          | (.ok (), store) => launcherLoop pkg lms (linkmetas ++ [lm]) store

def newLaunchers (pkg : Package) (store : LinkStore) : Except ErrorCode Unit × LinkStore :=
  match env.directoriesError with
  | some ec => (.error ec, store)
  | none =>
      match env.builderError with
      | some ec => (.error ec, store)
      | none =>
          let made := env.launcherLoop pkg pkg.launchers [] store
          env.storeMetas made.1 pkg made.2

def newLinks (pkg : Package) (forceoverwrite : Bool) (store : LinkStore) :
    Except ErrorCode Unit × LinkStore :=
  let symlinks : Except ErrorCode Unit × LinkStore :=
    if pkg.links.isEmpty then (.ok (), store) else env.newSymlinks pkg forceoverwrite store
  match symlinks with
  | (.error ec, store) => (.error ec, store)
  | (.ok (), store) =>
      if pkg.launchers.isEmpty then (.ok (), store)
      else if env.initialized then env.newLaunchers pkg store
      else env.newProxyLaunchers pkg forceoverwrite store

/-- `DropLinks`, with the files it removes. -/
def dropLinks (pkgName : WString) (store : LinkStore) : Except ErrorCode Unit × LinkStore :=
  let dropped := Pkg.dropLinks env.host pkgName store.registry
  (dropped.result,
    dropped.removed.foldl (fun store path => env.delete path store)
      { store with registry := dropped.file })

/-- `package::NewLinks`, which does not ask whether links were dropped. -/
def packageNewLinks (pkg : Package) (store : LinkStore) : Except ErrorCode Unit × LinkStore :=
  env.newLinks pkg true (env.dropLinks pkg.name store).2

end LinkEnv

/-! ## Runs -/

/-- What the package manager does to links: it installs a package, or removes
one. -/
inductive LinkChange where
  | install (pkg : Package)
  | remove (pkgName : WString)

def LinkChange.package : LinkChange → WString
  | .install pkg => pkg.name
  | .remove pkgName => pkgName

/-- A change and its environment. -/
structure LinkStep where
  change : LinkChange
  env : LinkEnv

def LinkStep.run (step : LinkStep) (store : LinkStore) : LinkStore :=
  match step.change with
  | .install pkg => (step.env.packageNewLinks pkg store).2
  | .remove pkgName => (step.env.dropLinks pkgName store).2

/-- The store after some changes. -/
def runSteps (steps : List LinkStep) (store : LinkStore) : LinkStore :=
  steps.foldl (fun store step => step.run store) store

end Baulk.Pkg
