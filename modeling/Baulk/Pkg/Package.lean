import Baulk.Path.Windows

/-!
# Packages and buckets

The records that the package manager passes around.  A bucket is a collection
of manifests, and a package is what a manifest or the lock file of an installed
package says.
-/

namespace Baulk.Pkg

/-- `bela::BaseName`. -/
def baseName (name : WString) : WString :=
  if name.isEmpty then wide "."
  else if name.length = 2 ∧ name[1]? = some 0x3A then wide "."
  else
    match if 2 < name.length ∧ name[1]? = some 0x3A then name.drop 2
        else name with
    | [] => wide "."
    | c :: rest =>
        -- The first character stays, whatever it is.
        let rest := (rest.reverse.dropWhile isPathSeparator).reverse
        if rest.isEmpty && isPathSeparator c then wide "."
        else
          ((c :: rest).reverse.takeWhile fun c => !isPathSeparator c).reverse

example : baseName (wide "bin\\tool.exe") = wide "tool.exe" := by
  decide

structure LinkMeta where
  path : WString
  aliasName : WString

/-- The `LinkMeta` of the text in a manifest. -/
def LinkMeta.ofText (sv : WString) : LinkMeta :=
  if (0x40 : WChar) ∈ sv then
    ⟨sv.takeWhile (· ≠ 0x40), (sv.dropWhile (· ≠ 0x40)).tail⟩
  else ⟨sv, baseName sv⟩

structure PackageEnv where
  category : WString := []
  paths : List WString := []
  includes : List WString := []
  libs : List WString := []
  envs : List WString := []
  dependencies : List WString := []
  mkdirs : List WString := []

/-- `PackageEnv::empty`. -/
def PackageEnv.isEmpty (env : PackageEnv) : Bool :=
  env.paths.isEmpty && env.includes.isEmpty && env.libs.isEmpty &&
    env.envs.isEmpty && env.dependencies.isEmpty

/-- `BucketVariant`; a profile may hold any number. -/
inductive BucketVariant where
  | native
  | scoop
  | other (value : Int)
  deriving DecidableEq, Repr

inductive BucketObserveMode where
  | github
  | git
  | other (value : Int)
  deriving DecidableEq, Repr

structure Bucket where
  description : WString := []
  name : WString := []
  url : WString := []
  weights : Int := 99
  mode : BucketObserveMode := .github
  variant : BucketVariant := .native

structure Package where
  name : WString := []
  description : WString := []
  version : WString := []
  bucket : WString := []
  extension : WString := []
  homepage : WString := []
  notes : WString := []
  license : WString := []
  hash : WString := []
  urls : List WString := []
  forceDeletes : List WString := []
  suggest : List WString := []
  links : List LinkMeta := []
  launchers : List LinkMeta := []
  venv : PackageEnv := {}
  weights : Int := 0
  variant : BucketVariant := .native
  mask : UInt32 := 0

def maskCompatibilityMode : UInt32 := 1

/-- The launchers of the package are kept. -/
def Package.compatibilityMode (pkg : Package) : Bool :=
  pkg.mask &&& maskCompatibilityMode != 0

end Baulk.Pkg
