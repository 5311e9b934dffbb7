import Baulk.Core.JsonView
import Baulk.Pkg.Package

/-!
# Lock files

The lock file of a package says that it is installed, and what of its manifest
is needed later.  `PackageLocalMetaWrite` writes it, `PackageLocalMeta` reads it
for the package manager and `loadPackageEnv` for the launcher of virtual
environments.  Members that are empty are not written.

Reading gives back what was written up to two exceptions: the category of an
environment without any other entry is not written at all, and both readers
turn slashes into backslashes.
-/

namespace Baulk.Pkg

/-! ## Writing -/

/-- What `PackageLocalMetaWrite` gets from its environment. -/
structure LockHost where
  /-- `FormatTime(Now())`. -/
  now : Bytes := []
  /-- How `MakeDirectories` fails. -/
  makeDirectories : Option ErrorCode := none
  /-- What `dump` throws. -/
  dumpError : Option ErrorCode := none
  /-- How `AtomicWriteText` fails. -/
  writeError : Option ErrorCode := none

def textArray (av : List WString) : Json :=
  .array (av.map fun a => .string (encodeUtf8 a))

def addArray (root : Json) (name : Bytes) (av : List WString) : Json :=
  if av.isEmpty then root else root.setMember name (textArray av)

/-- The member `venv` of a lock file. -/
def venvObject (env : PackageEnv) : Json :=
  let venv : Json := .null
  let venv :=
    if env.category.isEmpty then venv
    else venv.setMember (narrow "category") (.string (encodeUtf8 env.category))
  let venv := addArray venv (narrow "path") env.paths
  let venv := addArray venv (narrow "include") env.includes
  let venv := addArray venv (narrow "lib") env.libs
  let venv := addArray venv (narrow "env") env.envs
  addArray venv (narrow "dependencies") env.dependencies

/-- The content of a lock file. -/
def lockObject (now : Bytes) (pkg : Package) : Json :=
  let j : Json := .null
  let j := j.setMember (narrow "version") (.string (encodeUtf8 pkg.version))
  let j := j.setMember (narrow "bucket") (.string (encodeUtf8 pkg.bucket))
  let j := j.setMember (narrow "date") (.string now)
  let j := j.setMember (narrow "mask") (.number (.integer pkg.mask.toNat))
  let j := addArray j (narrow "force_delete") pkg.forceDeletes
  if pkg.venv.isEmpty then j
  else j.setMember (narrow "venv") (venvObject pkg.venv)

/-- `PackageLocalMetaWrite`: the content of the new lock file, or why it is not
written. -/
def packageLocalMetaWrite (host : LockHost) (pkg : Package) :
    Except ErrorCode Json :=
  match host.makeDirectories, host.dumpError, host.writeError with
  | some ec, _, _ => .error ec
  | none, some ec, _ => .error ec
  | none, none, some ec => .error ec
  | none, none, none => .ok (lockObject host.now pkg)

/-! ## Reading -/

def bucketWeights (buckets : List Bucket) (bucket : WString) : Int :=
  match buckets.find? fun loaded => equalsIgnoreCase loaded.name bucket with
  | some loaded => loaded.weights
  | none => 0

def lockCategory (jv : Json) : WString :=
  match jv.subview (narrow "venv") with
  | some sv => sv.get (narrow "category")
  | none => []

/-- `PackageLocalMeta`, from what `parse_json_file` makes of the lock file. -/
def packageLocalMeta (buckets : List Bucket)
    (pkj : Except ErrorCode Json) (pkgName : WString) :
    Except ErrorCode (Except ErrorCode Package) :=
  match pkj with
  | .error ec => .ok (.error ec)
  | .ok jv => do
      let mask :=
        match jv.getAsInteger (narrow "mask") with
        | some value => Json.toUInt32 value
        | none => 0
      let forceDeletes ← jv.getPathsChecked (narrow "force_delete")
      return .ok
        { name := pkgName
          version := jv.get (narrow "version")
          bucket := jv.get (narrow "bucket")
          mask
          forceDeletes := forceDeletes.getD []
          venv := { category := lockCategory jv }
          weights := bucketWeights buckets (jv.get (narrow "bucket")) }

/-- `baulk::env::PackageEnv`. -/
structure LoadedEnv where
  name : WString
  paths : List WString := []
  envs : List WString := []
  includes : List WString := []
  libs : List WString := []
  dependencies : List WString := []

/-- `bela::StartsWithIgnoreCase`. -/
def startsWithIgnoreCase (text start : WString) : Bool :=
  equalsIgnoreCase (text.take start.length) start

def replaceDependencies (env : LoadedEnv) (depends : List WString) :
    LoadedEnv :=
  { env with
    dependencies := env.dependencies.map fun depend =>
      match depends.find? fun d =>
          startsWithIgnoreCase d (depend ++ wide "=>") with
      | some d => d.drop (depend.length + 2)
      | none => depend }

/-- The members that both the lock file and a local file may have. -/
def loadMembers (jv : Json) (env : LoadedEnv) : Except ErrorCode LoadedEnv := do
  let paths ← jv.getPathsChecked (narrow "path")
  let includes ← jv.getPathsChecked (narrow "include")
  let libs ← jv.getPathsChecked (narrow "lib")
  let envs ← jv.getStringsChecked (narrow "env")
  return { env with
    paths := env.paths ++ paths.getD []
    includes := env.includes ++ includes.getD []
    libs := env.libs ++ libs.getD []
    envs := env.envs ++ envs.getD [] }

/-- `Constructor::loadPackageLocalEnv`. -/
def loadPackageLocalEnv (jo : Except ErrorCode Json) (env : LoadedEnv) :
    Except ErrorCode LoadedEnv :=
  match jo with
  | .error _ => .ok env
  | .ok jv => do
      let env ← loadMembers jv env
      let replace ← jv.getStringsChecked (narrow "replace")
      return replaceDependencies env (replace.getD [])

/-- `Constructor::loadPackageEnv`, from what `parse_json_file` makes of the lock
file and of the local file. -/
def loadPackageEnv (lock localEnv : Except ErrorCode Json)
    (pkgName : WString) : Except ErrorCode (Except ErrorCode LoadedEnv) :=
  match lock with
  | .error ec => .ok (.error ec)
  | .ok jv => do
      let env : LoadedEnv ←
        match jv.subview (narrow "venv") with
        | none => pure { name := pkgName }
        | some sv => do
            let env ← loadMembers sv { name := pkgName }
            let dependencies ← sv.getStringsChecked (narrow "dependencies")
            pure { env with dependencies := dependencies.getD [] }
      let env ← loadPackageLocalEnv localEnv env
      return .ok env

/-! ## What is written -/

theorem IsMap.addArray {root : Json} (h : root.IsMap) (name : Bytes)
    (av : List WString) : (addArray root name av).IsMap := by
  unfold Pkg.addArray
  split
  · exact h
  · exact h.setMember _ _

theorem find_addArray {root : Json} (h : root.IsMap) (name : Bytes)
    (av : List WString) (key : Bytes) :
    (addArray root name av).find key =
      if key = name ∧ av ≠ [] then some (textArray av) else root.find key := by
  unfold addArray
  cases av with
  | nil => simp
  | cons a av => simp [h.find_setMember]

theorem find_venvObject (env : PackageEnv) (key : Bytes) :
    (venvObject env).find key =
      if key = narrow "dependencies" ∧ env.dependencies ≠ [] then
        some (textArray env.dependencies)
      else if key = narrow "env" ∧ env.envs ≠ [] then some (textArray env.envs)
      else if key = narrow "lib" ∧ env.libs ≠ [] then some (textArray env.libs)
      else if key = narrow "include" ∧ env.includes ≠ [] then
        some (textArray env.includes)
      else if key = narrow "path" ∧ env.paths ≠ [] then
        some (textArray env.paths)
      else if key = narrow "category" ∧ env.category ≠ [] then
        some (.string (encodeUtf8 env.category))
      else none := by
  have hcategory : ∀ k, (if env.category.isEmpty then Json.null
      else Json.null.setMember (narrow "category")
        (.string (encodeUtf8 env.category))).find k =
      if k = narrow "category" ∧ env.category ≠ [] then
        some (.string (encodeUtf8 env.category)) else none := by
    intro k
    cases env.category with
    | nil => simp [Json.find]
    | cons c category =>
        rw [if_neg (by simp), Json.IsMap.null.find_setMember]
        simp [Json.find]
  have hmap : (if env.category.isEmpty then Json.null
      else Json.null.setMember (narrow "category")
        (.string (encodeUtf8 env.category))).IsMap := by
    split
    · exact .null
    · exact Json.IsMap.null.setMember _ _
  unfold venvObject
  have hpath := IsMap.addArray hmap (narrow "path") env.paths
  have hinclude := IsMap.addArray hpath (narrow "include") env.includes
  have hlib := IsMap.addArray hinclude (narrow "lib") env.libs
  have henv := IsMap.addArray hlib (narrow "env") env.envs
  rw [find_addArray henv, find_addArray hlib, find_addArray hinclude,
    find_addArray hpath, find_addArray hmap, hcategory]

theorem find_lockObject (now : Bytes) (pkg : Package) (key : Bytes) :
    (lockObject now pkg).find key =
      if key = narrow "venv" ∧ pkg.venv.isEmpty = false then
        some (venvObject pkg.venv)
      else if key = narrow "force_delete" ∧ pkg.forceDeletes ≠ [] then
        some (textArray pkg.forceDeletes)
      else if key = narrow "mask" then
        some (.number (.integer pkg.mask.toNat))
      else if key = narrow "date" then some (.string now)
      else if key = narrow "bucket" then some (.string (encodeUtf8 pkg.bucket))
      else if key = narrow "version" then
        some (.string (encodeUtf8 pkg.version))
      else none := by
  have hversion := Json.IsMap.null.setMember (narrow "version")
    (.string (encodeUtf8 pkg.version))
  have hbucket := hversion.setMember (narrow "bucket")
    (.string (encodeUtf8 pkg.bucket))
  have hdate := hbucket.setMember (narrow "date") (.string now)
  have hmask := hdate.setMember (narrow "mask")
    (.number (.integer pkg.mask.toNat))
  have hdeletes := IsMap.addArray hmask (narrow "force_delete")
    pkg.forceDeletes
  unfold lockObject
  cases pkg.venv.isEmpty with
  | true =>
      simp only [if_true]
      rw [if_neg (by simp), find_addArray hmask, hdate.find_setMember,
        hbucket.find_setMember, hversion.find_setMember,
        Json.IsMap.null.find_setMember]
      rfl
  | false =>
      simp only [Bool.false_eq_true, if_false, and_true]
      rw [hdeletes.find_setMember, find_addArray hmask, hdate.find_setMember,
        hbucket.find_setMember, hversion.find_setMember,
        Json.IsMap.null.find_setMember]
      rfl

/-! ## What is read -/

theorem texts_textArray (av : List WString) :
    Json.texts (av.map fun a => .string (encodeUtf8 a)) =
      .ok (av.map pairedPart) := by
  induction av with
  | nil => rfl
  | cons a av ih =>
      rw [List.map_cons, Json.texts, ih, List.map_cons,
        ← encodeUtf16_encodeUtf8 a]
      rfl

theorem getPathsChecked_textArray {root : Json} {name : Bytes}
    {av : List WString}
    (h : root.find name = if av ≠ [] then some (textArray av) else none) :
    ∃ v, root.getPathsChecked name = .ok v ∧
      v.getD [] = av.map fun a => fromSlash (pairedPart a) := by
  rw [Json.getPathsChecked, h]
  cases av with
  | nil => exact ⟨none, rfl, rfl⟩
  | cons a av =>
      refine ⟨some (((a :: av).map pairedPart).map fromSlash), ?_, ?_⟩
      · rw [if_pos (by simp), textArray]
        dsimp only
        rw [texts_textArray]
        rfl
      · rw [List.map_map]
        rfl

theorem getStringsChecked_textArray {root : Json} {name : Bytes}
    {av : List WString}
    (h : root.find name = if av ≠ [] then some (textArray av) else none) :
    ∃ v, root.getStringsChecked name = .ok v ∧
      v.getD [] = av.map pairedPart := by
  rw [Json.getStringsChecked, h]
  cases av with
  | nil => exact ⟨none, rfl, rfl⟩
  | cons a av =>
      refine ⟨some ((a :: av).map pairedPart), ?_, rfl⟩
      rw [if_pos (by simp), textArray]
      dsimp only
      rw [texts_textArray]
      rfl

theorem PackageEnv.isEmpty_eq_false_iff {env : PackageEnv} :
    env.isEmpty = false ↔ env.paths ≠ [] ∨ env.includes ≠ [] ∨ env.libs ≠ [] ∨
      env.envs ≠ [] ∨ env.dependencies ≠ [] := by
  simp only [PackageEnv.isEmpty, Bool.and_eq_false_iff, or_assoc, ne_eq,
    List.isEmpty_eq_false_iff]

theorem subview_venv (now : Bytes) (pkg : Package) :
    (lockObject now pkg).subview (narrow "venv") =
      if pkg.venv.isEmpty then none else some (venvObject pkg.venv) := by
  have hfind := find_lockObject now pkg (narrow "venv")
  cases hempty : pkg.venv.isEmpty with
  | true =>
      rw [hempty] at hfind
      simp +decide only [if_false, false_and] at hfind
      rw [Json.subview, hfind]
      rfl
  | false =>
      rw [hempty] at hfind
      simp only [and_self, if_true] at hfind
      suffices hmember : ∃ key v,
          (venvObject pkg.venv).find key = some v by
        obtain ⟨key, v, hv⟩ := hmember
        exact Json.subview_of_find hfind hv
      simp only [find_venvObject]
      rcases PackageEnv.isEmpty_eq_false_iff.mp hempty with
        h | h | h | h | h
      · exact ⟨narrow "path", textArray pkg.venv.paths, by simp +decide [h]⟩
      · exact ⟨narrow "include", textArray pkg.venv.includes, by simp +decide [h]⟩
      · exact ⟨narrow "lib", textArray pkg.venv.libs, by simp +decide [h]⟩
      · exact ⟨narrow "env", textArray pkg.venv.envs, by simp +decide [h]⟩
      · refine ⟨narrow "dependencies", textArray pkg.venv.dependencies, ?_⟩
        simp +decide [h]

theorem toUInt32_toNat (n : UInt32) : Json.toUInt32 (n.toNat : Int) = n := by
  have hlt := n.toNat_lt
  have hmod : ((n.toNat : Int) % 2 ^ 32).toNat = n.toNat := by omega
  rw [Json.toUInt32, UInt32.ofInt, hmod, UInt32.ofNat_toNat]

theorem packageLocalMeta_lockObject (buckets : List Bucket) (now : Bytes)
    (pkg : Package) (pkgName : WString) :
    packageLocalMeta buckets (.ok (lockObject now pkg)) pkgName =
      .ok (.ok
        { name := pkgName
          version := pairedPart pkg.version
          bucket := pairedPart pkg.bucket
          mask := pkg.mask
          forceDeletes := pkg.forceDeletes.map fun a => fromSlash (pairedPart a)
          venv :=
            { category :=
                if pkg.venv.isEmpty then [] else pairedPart pkg.venv.category }
          weights := bucketWeights buckets (pairedPart pkg.bucket) }) := by
  have hmembers := find_lockObject now pkg
  have hdelete : (lockObject now pkg).find (narrow "force_delete") =
      if pkg.forceDeletes ≠ [] then some (textArray pkg.forceDeletes)
      else none := by
    rw [hmembers]
    simp +decide
  obtain ⟨deletes, hdeletes, hpaths⟩ := getPathsChecked_textArray hdelete
  have hversion : (lockObject now pkg).find (narrow "version") =
      some (.string (encodeUtf8 pkg.version)) := by
    rw [hmembers]
    simp +decide
  have hbucket : (lockObject now pkg).find (narrow "bucket") =
      some (.string (encodeUtf8 pkg.bucket)) := by
    rw [hmembers]
    simp +decide
  have hmask : (lockObject now pkg).getAsInteger (narrow "mask") =
      some (pkg.mask.toNat : Int) := by
    rw [Json.getAsInteger, hmembers]
    simp +decide
  have hcategory : lockCategory (lockObject now pkg) =
      if pkg.venv.isEmpty then [] else pairedPart pkg.venv.category := by
    rw [lockCategory, subview_venv]
    cases pkg.venv.isEmpty with
    | true => rfl
    | false =>
        simp only [Bool.false_eq_true, if_false]
        rw [Json.get, find_venvObject]
        cases hc : pkg.venv.category with
        | nil => simp +decide [pairedPart]
        | cons c category => simp +decide [encodeUtf16_encodeUtf8]
  simp only [packageLocalMeta, hdeletes, hmask, hcategory, hpaths,
    Json.get_of_find [] hversion, Json.get_of_find [] hbucket,
    encodeUtf16_encodeUtf8, toUInt32_toNat, bind, Except.bind, pure,
    Except.pure]

theorem loadPackageEnv_lockObject (now : Bytes) (pkg : Package) (ec : ErrorCode)
    (pkgName : WString) :
    loadPackageEnv (.ok (lockObject now pkg)) (.error ec) pkgName =
      .ok (.ok
        { name := pkgName
          paths := pkg.venv.paths.map fun a => fromSlash (pairedPart a)
          envs := pkg.venv.envs.map pairedPart
          includes := pkg.venv.includes.map fun a => fromSlash (pairedPart a)
          libs := pkg.venv.libs.map fun a => fromSlash (pairedPart a)
          dependencies := pkg.venv.dependencies.map pairedPart }) := by
  have hmembers := find_venvObject pkg.venv
  cases hempty : pkg.venv.isEmpty with
  | true =>
      have hlists : pkg.venv.paths = [] ∧ pkg.venv.includes = [] ∧
          pkg.venv.libs = [] ∧ pkg.venv.envs = [] ∧
          pkg.venv.dependencies = [] := by
        simpa [PackageEnv.isEmpty, and_assoc] using hempty
      obtain ⟨hpaths, hincludes, hlibs, henvs, hdependencies⟩ := hlists
      simp only [loadPackageEnv, subview_venv, hempty, if_true, hpaths,
        hincludes, hlibs, henvs, hdependencies]
      rfl
  | false =>
      have hpath : (venvObject pkg.venv).find (narrow "path") =
          if pkg.venv.paths ≠ [] then some (textArray pkg.venv.paths)
          else none := by
        rw [hmembers]
        simp +decide
      have hinclude : (venvObject pkg.venv).find (narrow "include") =
          if pkg.venv.includes ≠ [] then some (textArray pkg.venv.includes)
          else none := by
        rw [hmembers]
        simp +decide
      have hlib : (venvObject pkg.venv).find (narrow "lib") =
          if pkg.venv.libs ≠ [] then some (textArray pkg.venv.libs)
          else none := by
        rw [hmembers]
        simp +decide
      have henv : (venvObject pkg.venv).find (narrow "env") =
          if pkg.venv.envs ≠ [] then some (textArray pkg.venv.envs)
          else none := by
        rw [hmembers]
        simp +decide
      have hdependency : (venvObject pkg.venv).find (narrow "dependencies") =
          if pkg.venv.dependencies ≠ [] then
            some (textArray pkg.venv.dependencies)
          else none := by
        rw [hmembers]
        simp +decide
      obtain ⟨paths, hpaths, hpaths'⟩ := getPathsChecked_textArray hpath
      obtain ⟨includes, hincludes, hincludes'⟩ :=
        getPathsChecked_textArray hinclude
      obtain ⟨libs, hlibs, hlibs'⟩ := getPathsChecked_textArray hlib
      obtain ⟨envs, henvs, henvs'⟩ := getStringsChecked_textArray henv
      obtain ⟨dependencies, hdependencies, hdependencies'⟩ :=
        getStringsChecked_textArray hdependency
      simp only [loadPackageEnv, subview_venv, hempty, Bool.false_eq_true,
        if_false, loadMembers, hpaths, hincludes, hlibs, henvs, hdependencies,
        bind, Except.bind, pure, Except.pure, loadPackageLocalEnv, hpaths',
        hincludes', hlibs', henvs', hdependencies', List.nil_append]

/-! ## Reading what was written -/

/-- The readers restore a package. -/
structure Restored (pkg pkgLocal : Package) (env : LoadedEnv) : Prop where
  version : pkgLocal.version = pkg.version
  bucket : pkgLocal.bucket = pkg.bucket
  mask : pkgLocal.mask = pkg.mask
  forceDeletes : pkgLocal.forceDeletes = pkg.forceDeletes
  category : pkgLocal.venv.category = pkg.venv.category
  paths : env.paths = pkg.venv.paths
  includes : env.includes = pkg.venv.includes
  libs : env.libs = pkg.venv.libs
  envs : env.envs = pkg.venv.envs
  dependencies : env.dependencies = pkg.venv.dependencies

/-- A package that can be restored: its category stands beside an entry of the
environment, its paths hold no slash, and all texts come back from UTF-8. -/
structure Restorable (pkg : Package) : Prop where
  version : Paired pkg.version
  bucket : Paired pkg.bucket
  category : pkg.venv.category = [] ∨
    pkg.venv.isEmpty = false ∧ Paired pkg.venv.category
  paths : ∀ s ∈ pkg.forceDeletes ++ pkg.venv.paths ++ pkg.venv.includes ++
    pkg.venv.libs, Paired s ∧ 0x2F ∉ s
  texts : ∀ s ∈ pkg.venv.envs ++ pkg.venv.dependencies, Paired s

theorem fromSlash_eq_self_iff {s : WString} : fromSlash s = s ↔ 0x2F ∉ s := by
  induction s with
  | nil => simp [fromSlash]
  | cons c s ih =>
      rw [fromSlash] at ih
      rw [fromSlash, List.map_cons, List.cons.injEq, ih, List.mem_cons, not_or]
      refine and_congr_left fun _ => ?_
      by_cases hc : c = 0x2F
      · simp [hc]
      · rw [if_neg hc]
        exact iff_of_true rfl (Ne.symm hc)

theorem fromSlash_pairedPart_eq_iff {s : WString} :
    fromSlash (pairedPart s) = s ↔ Paired s ∧ 0x2F ∉ s := by
  constructor
  · intro h
    rcases pairedPart_cases s with hs | ⟨c, rest, -, hs⟩
    · rw [hs, fromSlash_eq_self_iff] at h
      exact ⟨hs, h⟩
    · have hlength := congrArg List.length h
      rw [fromSlash, List.length_map] at hlength
      have hcut := congrArg List.length hs
      rw [List.length_append, List.length_cons] at hcut
      omega
  · rintro ⟨hs, hslash⟩
    rw [hs, fromSlash_eq_self_iff]
    exact hslash

theorem map_eq_self_iff {f : WString → WString} {av : List WString} :
    av.map f = av ↔ ∀ a ∈ av, f a = a := by
  conv_lhs => rhs; rw [← List.map_id av]
  rw [List.map_inj_left]
  rfl

theorem packageLocalMetaWrite_ok {host : LockHost} {pkg : Package} {doc : Json}
    (h : packageLocalMetaWrite host pkg = .ok doc) :
    doc = lockObject host.now pkg := by
  unfold packageLocalMetaWrite at h
  split at h <;> cases h
  rfl

/-- The two readers of a lock file restore what was written exactly if the
package is restorable. -/
theorem lock_restored_iff {host : LockHost} {pkg : Package} {doc : Json}
    (h : packageLocalMetaWrite host pkg = .ok doc) (buckets : List Bucket)
    (missing : ErrorCode) :
    (∃ pkgLocal env,
      packageLocalMeta buckets (.ok doc) pkg.name = .ok (.ok pkgLocal) ∧
      loadPackageEnv (.ok doc) (.error missing) pkg.name = .ok (.ok env) ∧
      Restored pkg pkgLocal env) ↔ Restorable pkg := by
  rw [packageLocalMetaWrite_ok h, packageLocalMeta_lockObject,
    loadPackageEnv_lockObject]
  have hcategory : (if pkg.venv.isEmpty then [] else
      pairedPart pkg.venv.category) = pkg.venv.category ↔
      pkg.venv.category = [] ∨
        pkg.venv.isEmpty = false ∧ Paired pkg.venv.category := by
    cases pkg.venv.isEmpty with
    | true => simp [eq_comm]
    | false =>
        simp only [Bool.false_eq_true, if_false, true_and]
        constructor
        · exact .inr
        · rintro (hnil | hpaired)
          · rw [hnil]
            rfl
          · exact hpaired
  constructor
  · rintro ⟨pkgLocal, env, hlocal, henv, hrestored⟩
    cases hlocal
    cases henv
    refine ⟨hrestored.version, hrestored.bucket,
      hcategory.mp hrestored.category, ?_, ?_⟩
    · have hdeletes := map_eq_self_iff.mp hrestored.forceDeletes
      have hpaths := map_eq_self_iff.mp hrestored.paths
      have hincludes := map_eq_self_iff.mp hrestored.includes
      have hlibs := map_eq_self_iff.mp hrestored.libs
      intro s hs
      rw [List.mem_append, List.mem_append, List.mem_append] at hs
      rw [← fromSlash_pairedPart_eq_iff]
      rcases hs with ((hs | hs) | hs) | hs
      · exact hdeletes s hs
      · exact hpaths s hs
      · exact hincludes s hs
      · exact hlibs s hs
    · intro s hs
      rcases List.mem_append.mp hs with hs | hs
      · exact map_eq_self_iff.mp hrestored.envs s hs
      · exact map_eq_self_iff.mp hrestored.dependencies s hs
  · intro hpkg
    have hpaths : ∀ {av : List WString}, (∀ s ∈ av, s ∈ pkg.forceDeletes ++
        pkg.venv.paths ++ pkg.venv.includes ++ pkg.venv.libs) →
        (av.map fun a => fromSlash (pairedPart a)) = av := fun hav =>
      map_eq_self_iff.mpr fun s hs =>
        fromSlash_pairedPart_eq_iff.mpr (hpkg.paths s (hav s hs))
    have htexts : ∀ {av : List WString}, (∀ s ∈ av, s ∈ pkg.venv.envs ++
        pkg.venv.dependencies) → av.map pairedPart = av := fun hav =>
      map_eq_self_iff.mpr fun s hs => hpkg.texts s (hav s hs)
    refine ⟨_, _, rfl, rfl, hpkg.version, hpkg.bucket, rfl, ?_,
      hcategory.mpr hpkg.category, ?_, ?_, ?_, ?_, ?_⟩
    · exact hpaths fun s hs => by simp [hs]
    · exact hpaths fun s hs => by simp [hs]
    · exact hpaths fun s hs => by simp [hs]
    · exact hpaths fun s hs => by simp [hs]
    · exact htexts fun s hs => by simp [hs]
    · exact htexts fun s hs => by simp [hs]

def envPackage : Package where
  name := wide "go"
  version := wide "1.20"
  bucket := wide "baulk"
  venv := { category := wide "lang", paths := [wide "$BAULK_ROOT\\bin"] }

theorem lock_restored_env :
    ∃ pkgLocal env,
      packageLocalMeta [] (.ok (lockObject [] envPackage)) (wide "go") =
        .ok (.ok pkgLocal) ∧
      loadPackageEnv (.ok (lockObject [] envPackage)) (.error {}) (wide "go") =
        .ok (.ok env) ∧
      Restored envPackage pkgLocal env := by
  have hwrite : packageLocalMetaWrite {} envPackage =
      .ok (lockObject [] envPackage) := rfl
  refine (lock_restored_iff hwrite [] {}).mpr ⟨?_, ?_, .inr ⟨rfl, ?_⟩, ?_, ?_⟩
  · decide
  · decide
  · decide
  · decide
  · nofun

def categoryPackage : Package where
  name := wide "go"
  venv := { category := wide "lang" }

/-- The category is lost. -/
theorem lock_category_lost :
    packageLocalMetaWrite {} categoryPackage =
        .ok (lockObject [] categoryPackage) ∧
      ¬ ∃ pkgLocal env,
        packageLocalMeta [] (.ok (lockObject [] categoryPackage))
          (wide "go") = .ok (.ok pkgLocal) ∧
        loadPackageEnv (.ok (lockObject [] categoryPackage)) (.error {})
          (wide "go") = .ok (.ok env) ∧
        Restored categoryPackage pkgLocal env := by
  refine ⟨rfl, ?_⟩
  rintro ⟨pkgLocal, env, hlocal, -, hrestored⟩
  rw [packageLocalMeta_lockObject] at hlocal
  cases hlocal
  have hcategory : ([] : WString) = wide "lang" := hrestored.category
  revert hcategory
  decide

end Baulk.Pkg
