import Baulk.Pkg.Lock

/-!
# Manifests

A bucket holds one manifest for each of its packages.  `PackageMeta` reads it.
A manifest that is missing or cannot be parsed, or that names no archive for
this machine, gives an error; one with an array whose elements are not texts
makes the reader throw.
-/

namespace Baulk.Pkg

/-- What the readers of manifests get from their environment. -/
structure ManifestHost where
  /-- `parse_json_file`. -/
  parseJsonFile : WString → Except ErrorCode Json
  /-- `vfs::AppBuckets()`. -/
  appBuckets : WString
  /-- The program was built for ARM64. -/
  arm64 : Bool := false

/-- `host_architecture`. -/
def ManifestHost.architecture (host : ManifestHost) : Bytes :=
  if host.arm64 then narrow "arm64" else narrow "64bit"

/-- `host_architecture_name`. -/
def ManifestHost.architectureName (host : ManifestHost) : WString :=
  if host.arm64 then wide "ARM64" else wide "x64"

def packageMetaJoinNative (host : ManifestHost) (bucket : Bucket)
    (pkgName : WString) : WString :=
  host.appBuckets ++ wide "\\" ++ bucket.name ++ wide "\\bucket\\" ++ pkgName ++
    wide ".json"

/-- The links in a member of a manifest. -/
def linkMetas (jv : Json) (name : Bytes) : Except ErrorCode (List LinkMeta) := do
  let paths ← jv.getPathsChecked name
  return (paths.getD []).map LinkMeta.ofText

def archURL (jv sv : Json) (arch : Bytes) (pkg : Package) :
    Except ErrorCode (Option Package) :=
  match sv.subview arch with
  | none => .ok none
  | some av => do
      let links ← linkMetas jv (narrow "links")
      let launchers ← linkMetas jv (narrow "launchers")
      return some { pkg with
        urls := pkg.urls ++ [av.get (narrow "url")]
        hash := av.get (narrow "hash")
        links := pkg.links ++ links
        launchers := pkg.launchers ++ launchers }

def firstArchURL (jv sv : Json) (pkg : Package) :
    List Bytes → Except ErrorCode Package
  | [] => .ok pkg
  | arch :: archs => do
      match ← archURL jv sv arch pkg with
      | some pkg => return pkg
      | none => firstArchURL jv sv pkg archs

/-- The archive for this machine. -/
def nativeURL (host : ManifestHost) (jv : Json) (pkg : Package) :
    Except ErrorCode Package :=
  match jv.subview (narrow "architecture") with
  | none => .ok pkg
  | some sv =>
      firstArchURL jv sv pkg
        (host.architecture ::
          ((if host.arm64 then [narrow "64bit"] else []) ++ [narrow "32bit"]))

/-- `resolveNativeURL`; the links are read at last if there are none yet. -/
def resolveNativeURL (host : ManifestHost) (jv : Json) (pkg : Package) :
    Except ErrorCode Package := do
  let pkg ← nativeURL host jv pkg
  let links ← linkMetas jv (narrow "links")
  let launchers ← linkMetas jv (narrow "launchers")
  return { pkg with
    links := if pkg.links.isEmpty then links else pkg.links
    launchers := if pkg.launchers.isEmpty then launchers else pkg.launchers }

def manifestEnv (jv : Json) : Except ErrorCode PackageEnv :=
  match jv.subview (narrow "venv") with
  | none => .ok {}
  | some sv => do
      let paths ← sv.getPathsChecked (narrow "path")
      let includes ← sv.getPathsChecked (narrow "include")
      let libs ← sv.getPathsChecked (narrow "lib")
      let mkdirs ← sv.getPathsChecked (narrow "mkdir")
      let envs ← sv.getStringsChecked (narrow "env")
      let dependencies ← sv.getStringsChecked (narrow "dependencies")
      return {
        category := sv.get (narrow "category")
        paths := paths.getD []
        includes := includes.getD []
        libs := libs.getD []
        envs := envs.getD []
        dependencies := dependencies.getD []
        mkdirs := mkdirs.getD [] }

/-- The texts that both kinds of manifests start with. -/
def manifestPackage (bucket : Bucket) (pkgName : WString) (jv : Json) :
    Package where
  name := pkgName
  description := jv.get (narrow "description")
  version := jv.get (narrow "version")
  bucket := bucket.name
  homepage := jv.get (narrow "homepage")
  notes := jv.get (narrow "notes")
  license := jv.get (narrow "license")

def packageMetaNative (host : ManifestHost) (bucket : Bucket)
    (pkgName : WString) : Except ErrorCode (Except ErrorCode Package) :=
  let pkgMeta := packageMetaJoinNative host bucket pkgName
  match host.parseJsonFile pkgMeta with
  | .error ec => .ok (.error ec)
  | .ok jv => do
      let suggest ← jv.getStringsChecked (narrow "suggest")
      let forceDeletes ← jv.getPathsChecked (narrow "force_delete")
      let pkg ← resolveNativeURL host jv
        { manifestPackage bucket pkgName jv with
          extension := (jv.get (narrow "extension") (wide "auto")).map
            asciiToLower
          suggest := suggest.getD []
          forceDeletes := forceDeletes.getD [] }
      if pkg.urls.isEmpty then
        return .error (ErrorCode.make ErrorCode.errGeneral
          (pkgMeta ++ wide " not yet port to " ++ host.architectureName ++
            wide " platform."))
      else
        let venv ← manifestEnv jv
        return .ok { pkg with venv }

/-- The archive of a Scoop manifest: the member of the manifest that says it. -/
def scoopArchive (host : ManifestHost) (jv : Json) : Json :=
  match jv.subview (narrow "architecture") with
  | none => jv
  | some sv =>
      match sv.subview host.architecture, sv.subview (narrow "32bit") with
      | some av, _ => av
      | none, some av => av
      | none, none => jv

def packageMetaScoop (host : ManifestHost) (bucket : Bucket)
    (pkgName : WString) : Except ErrorCode (Except ErrorCode Package) :=
  match host.parseJsonFile (packageMetaJoinNative host bucket pkgName) with
  | .error ec => .ok (.error ec)
  | .ok jv => do
      let launchers ← linkMetas jv (narrow "bin")
      let av := scoopArchive host jv
      return .ok
        { manifestPackage bucket pkgName jv with
          extension := wide "auto"
          variant := .scoop
          launchers
          urls := [av.get (narrow "url")]
          hash := av.get (narrow "hash") }

/-- `PackageMeta`: what it throws, its error, or the package. -/
def packageMeta (host : ManifestHost) (bucket : Bucket) (pkgName : WString) :
    Except ErrorCode (Except ErrorCode Package) :=
  match bucket.variant with
  | .native => packageMetaNative host bucket pkgName
  | .scoop => packageMetaScoop host bucket pkgName
  | .other value =>
      .ok (.error (ErrorCode.make ErrorCode.errUnimplemented
        (wide "bucket not support variant: " ++ wide (toString value))))

/-! ## What every package of a manifest has -/

theorem archURL_keeps {jv sv : Json} {arch : Bytes} {pkg pkg' : Package}
    (h : archURL jv sv arch pkg = .ok (some pkg')) :
    pkg'.name = pkg.name ∧ pkg'.version = pkg.version := by
  unfold archURL at h
  split at h
  · cases h
  · obtain ⟨links, -, h⟩ := bind_eq_ok_iff.mp h
    obtain ⟨launchers, -, h⟩ := bind_eq_ok_iff.mp h
    cases h
    exact ⟨rfl, rfl⟩

theorem firstArchURL_keeps {jv sv : Json} {archs : List Bytes}
    {pkg pkg' : Package} (h : firstArchURL jv sv pkg archs = .ok pkg') :
    pkg'.name = pkg.name ∧ pkg'.version = pkg.version := by
  induction archs with
  | nil =>
      cases h
      exact ⟨rfl, rfl⟩
  | cons arch archs ih =>
      rw [firstArchURL] at h
      obtain ⟨found, hfound, h⟩ := bind_eq_ok_iff.mp h
      cases found with
      | none => exact ih h
      | some found =>
          cases h
          exact archURL_keeps hfound

theorem resolveNativeURL_keeps {host : ManifestHost} {jv : Json}
    {pkg pkg' : Package} (h : resolveNativeURL host jv pkg = .ok pkg') :
    pkg'.name = pkg.name ∧ pkg'.version = pkg.version := by
  unfold resolveNativeURL at h
  obtain ⟨found, hfound, h⟩ := bind_eq_ok_iff.mp h
  obtain ⟨links, -, h⟩ := bind_eq_ok_iff.mp h
  obtain ⟨launchers, -, h⟩ := bind_eq_ok_iff.mp h
  cases h
  unfold nativeURL at hfound
  split at hfound
  · cases hfound
    exact ⟨rfl, rfl⟩
  · have hkeeps := firstArchURL_keeps hfound
    exact hkeeps

/-- A package of a manifest has the name that was looked up, an address, and the
version that the manifest says. -/
structure FromManifest (pkgName : WString) (pkg : Package) : Prop where
  name : pkg.name = pkgName
  version : ∃ jv : Json, pkg.version = jv.get (narrow "version")
  urls : pkg.urls ≠ []

theorem packageMeta_fromManifest {host : ManifestHost} {bucket : Bucket}
    {pkgName : WString} {pkg : Package}
    (h : packageMeta host bucket pkgName = .ok (.ok pkg)) :
    FromManifest pkgName pkg := by
  unfold packageMeta at h
  split at h
  · unfold packageMetaNative at h
    dsimp only at h
    split at h
    · cases h
    · rename_i jv hparse
      obtain ⟨suggest, -, h⟩ := bind_eq_ok_iff.mp h
      obtain ⟨forceDeletes, -, h⟩ := bind_eq_ok_iff.mp h
      obtain ⟨found, hfound, h⟩ := bind_eq_ok_iff.mp h
      obtain ⟨hname, hversion⟩ := resolveNativeURL_keeps hfound
      split at h
      · cases h
      · rename_i hurls
        obtain ⟨venv, -, h⟩ := bind_eq_ok_iff.mp h
        cases h
        refine ⟨hname, ⟨jv, hversion⟩, ?_⟩
        rwa [List.isEmpty_iff] at hurls
  · unfold packageMetaScoop at h
    split at h
    · cases h
    · rename_i jv hparse
      obtain ⟨launchers, -, h⟩ := bind_eq_ok_iff.mp h
      cases h
      exact ⟨rfl, ⟨jv, rfl⟩, by simp⟩
  · cases h

end Baulk.Pkg
