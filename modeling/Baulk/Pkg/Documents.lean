import Baulk.Pkg.Metadata

/-!
# What the readers of documents throw on

A reader of manifests, lock files or local files returns, or it throws.  It
throws exactly for a document with an array, in a member that is read as a list,
that has an element other than a text.
-/

namespace Baulk

/-- The call does not throw. -/
def Completes {α : Type} (x : Except ErrorCode α) : Prop :=
  ∃ a, x = .ok a

theorem completes_ok {α : Type} (a : α) : Completes (.ok a) :=
  ⟨a, rfl⟩

/-- A call, and one after it that returns under a condition that the value of the
first one does not change. -/
theorem completes_bind_iff {α β : Type} {x : Except ErrorCode α}
    {f : α → Except ErrorCode β} {q : Prop}
    (h : ∀ a, x = .ok a → (Completes (f a) ↔ q)) :
    Completes (x >>= f) ↔ Completes x ∧ q := by
  constructor
  · rintro ⟨b, hb⟩
    obtain ⟨a, ha, hf⟩ := bind_eq_ok_iff.mp hb
    exact ⟨⟨a, ha⟩, (h a ha).mp ⟨b, hf⟩⟩
  · rintro ⟨⟨a, ha⟩, hq⟩
    obtain ⟨b, hb⟩ := (h a ha).mpr hq
    exact ⟨b, bind_eq_ok_iff.mpr ⟨a, ha, hb⟩⟩

theorem completes_bind_pure_iff {α β : Type} {x : Except ErrorCode α} {f : α → β} :
    Completes (x >>= fun a => pure (f a)) ↔ Completes x := by
  have hpure : ∀ a, x = .ok a → (Completes (pure (f a)) ↔ True) := fun a _ =>
    iff_of_true (completes_ok _) trivial
  rw [completes_bind_iff hpure, and_true]

namespace Json

def IsText (o : Json) : Prop :=
  ∃ raw, o = .string raw

/-- The member is not an array, or an array of texts. -/
def TextsOnly (json : Json) (name : Bytes) : Prop :=
  ∀ elements, json.find name = some (.array elements) → ∀ o ∈ elements, o.IsText

theorem getString_completes_iff (o : Json) : Completes o.getString ↔ o.IsText := by
  constructor
  · rintro ⟨raw, h⟩
    cases o with
    | string value => exact ⟨value, rfl⟩
    | null => cases h
    | boolean value => cases h
    | number value => cases h
    | array elements => cases h
    | object keys nodup value => cases h
  · rintro ⟨raw, rfl⟩
    exact completes_ok raw

theorem texts_completes_iff (elements : List Json) :
    Completes (texts elements) ↔ ∀ o ∈ elements, o.IsText := by
  induction elements with
  | nil => exact iff_of_true (completes_ok _) fun o ho => absurd ho List.not_mem_nil
  | cons o rest ih =>
      rw [texts, completes_bind_iff fun raw _ => completes_bind_pure_iff.trans ih,
        getString_completes_iff, List.forall_mem_cons]

theorem textsOnly_of_find {json : Json} {name : Bytes} {v : Option Json}
    (h : json.find name = v) (hv : ∀ elements, v ≠ some (.array elements)) :
    json.TextsOnly name := by
  intro elements helements
  exact absurd (h.symm.trans helements) (hv elements)

theorem textsOnly_iff_of_find {json : Json} {name : Bytes}
    {elements : List Json} (h : json.find name = some (.array elements)) :
    json.TextsOnly name ↔ ∀ o ∈ elements, o.IsText := by
  constructor
  · intro htexts
    exact htexts elements h
  · intro helements elements' h'
    rw [h, Option.some.injEq, Json.array.injEq] at h'
    rwa [← h']

theorem getStringsChecked_completes_iff (json : Json) (name : Bytes) :
    Completes (json.getStringsChecked name) ↔ json.TextsOnly name := by
  unfold getStringsChecked
  split
  · rename_i raw h
    exact iff_of_true (completes_ok _) (textsOnly_of_find h (by simp))
  · rename_i elements h
    rw [completes_bind_pure_iff, texts_completes_iff, textsOnly_iff_of_find h]
  · rename_i hstring harray
    exact iff_of_true (completes_ok _)
      fun elements h => absurd h (harray elements)

theorem getPathsChecked_completes_iff (json : Json) (name : Bytes) :
    Completes (json.getPathsChecked name) ↔ json.TextsOnly name := by
  unfold getPathsChecked
  split
  · rename_i raw h
    exact iff_of_true (completes_ok _) (textsOnly_of_find h (by simp))
  · rename_i elements h
    rw [completes_bind_pure_iff, texts_completes_iff, textsOnly_iff_of_find h]
  · rename_i v hstring harray h
    exact iff_of_true (completes_ok _)
      (textsOnly_of_find h fun elements heq => harray elements (Option.some.inj heq))
  · rename_i h
    exact iff_of_true (completes_ok _) (textsOnly_of_find h (by simp))

end Json

end Baulk

namespace Baulk.Pkg

/-! ## Manifests -/

/-- The lists of a manifest that belong to every architecture. -/
structure LinksReadable (jv : Json) : Prop where
  links : jv.TextsOnly (narrow "links")
  launchers : jv.TextsOnly (narrow "launchers")

/-- The lists of the environment in a manifest. -/
structure ManifestEnvReadable (sv : Json) : Prop where
  paths : sv.TextsOnly (narrow "path")
  includes : sv.TextsOnly (narrow "include")
  libs : sv.TextsOnly (narrow "lib")
  mkdirs : sv.TextsOnly (narrow "mkdir")
  envs : sv.TextsOnly (narrow "env")
  dependencies : sv.TextsOnly (narrow "dependencies")

def HasArchive (host : ManifestHost) (jv : Json) : Prop :=
  ∃ sv, jv.subview (narrow "architecture") = some sv ∧
    ∃ arch ∈ host.architecture ::
        ((if host.arm64 then [narrow "64bit"] else []) ++ [narrow "32bit"]),
      sv.subview arch ≠ none

/-- `PackageMetaNative` gets through the manifest. -/
structure NativeReadable (host : ManifestHost) (jv : Json) : Prop where
  suggest : jv.TextsOnly (narrow "suggest")
  forceDeletes : jv.TextsOnly (narrow "force_delete")
  links : LinksReadable jv
  /-- The environment is only read if there is an archive. -/
  venv : HasArchive host jv →
    ∀ sv, jv.subview (narrow "venv") = some sv → ManifestEnvReadable sv

theorem linkMetas_completes_iff (jv : Json) (name : Bytes) :
    Completes (linkMetas jv name) ↔ jv.TextsOnly name := by
  unfold linkMetas
  rw [completes_bind_pure_iff, jv.getPathsChecked_completes_iff]

theorem archURL_completes (jv sv : Json) (arch : Bytes) (pkg : Package)
    (h : LinksReadable jv) : ∃ found, archURL jv sv arch pkg = .ok found ∧
      (found.isSome ↔ sv.subview arch ≠ none) ∧
      ∀ pkg', found = some pkg' → pkg'.urls ≠ [] := by
  obtain ⟨links, hlinks⟩ := (linkMetas_completes_iff jv _).mpr h.links
  obtain ⟨launchers, hlaunchers⟩ := (linkMetas_completes_iff jv _).mpr h.launchers
  unfold archURL
  cases sv.subview arch with
  | none => exact ⟨none, rfl, by simp, by simp⟩
  | some av =>
      rw [hlinks, hlaunchers]
      exact ⟨_, rfl, by simp, by rintro pkg' ⟨⟩; simp⟩

/-- When the links can be read, the search for an archive returns, and the
package has an address if there is one. -/
theorem firstArchURL_completes {jv : Json} (sv : Json) {pkg : Package}
    (h : LinksReadable jv) (hurls : pkg.urls = []) (archs : List Bytes) :
    ∃ pkg', firstArchURL jv sv pkg archs = .ok pkg' ∧
      (pkg'.urls ≠ [] ↔ ∃ arch ∈ archs, sv.subview arch ≠ none) := by
  induction archs with
  | nil => exact ⟨pkg, rfl, by simp [hurls]⟩
  | cons arch archs ih =>
      obtain ⟨found, hfound, hsome, hne⟩ := archURL_completes jv sv arch pkg h
      rw [firstArchURL, hfound]
      cases found with
      | none =>
          obtain ⟨pkg', heq, hiff⟩ := ih
          refine ⟨pkg', heq, hiff.trans ?_⟩
          simp only [Option.isSome_none, Bool.false_eq_true, false_iff, not_not]
            at hsome
          simp [hsome]
      | some pkg' =>
          refine ⟨pkg', rfl, iff_of_true (hne pkg' rfl) ?_⟩
          exact ⟨arch, List.mem_cons_self, hsome.mp rfl⟩

theorem nativeURL_completes (host : ManifestHost) {jv : Json} {pkg : Package}
    (h : LinksReadable jv) (hurls : pkg.urls = []) :
    ∃ pkg', nativeURL host jv pkg = .ok pkg' ∧
      (pkg'.urls ≠ [] ↔ HasArchive host jv) := by
  unfold nativeURL HasArchive
  cases jv.subview (narrow "architecture") with
  | none => exact ⟨pkg, rfl, by simp [hurls]⟩
  | some sv =>
      obtain ⟨pkg', heq, hiff⟩ := firstArchURL_completes sv h hurls
        (host.architecture ::
          ((if host.arm64 then [narrow "64bit"] else []) ++ [narrow "32bit"]))
      exact ⟨pkg', heq, hiff.trans (by simp)⟩

theorem resolveNativeURL_completes_iff (host : ManifestHost) {jv : Json}
    {pkg : Package} (hurls : pkg.urls = []) :
    Completes (resolveNativeURL host jv pkg) ↔ LinksReadable jv := by
  unfold resolveNativeURL
  constructor
  · rintro ⟨pkg', h⟩
    obtain ⟨found, -, h⟩ := bind_eq_ok_iff.mp h
    obtain ⟨links, hlinks, h⟩ := bind_eq_ok_iff.mp h
    obtain ⟨launchers, hlaunchers, -⟩ := bind_eq_ok_iff.mp h
    exact ⟨(linkMetas_completes_iff jv _).mp ⟨links, hlinks⟩,
      (linkMetas_completes_iff jv _).mp ⟨launchers, hlaunchers⟩⟩
  · intro h
    obtain ⟨found, hfound, -⟩ := nativeURL_completes host h hurls
    obtain ⟨links, hlinks⟩ := (linkMetas_completes_iff jv _).mpr h.links
    obtain ⟨launchers, hlaunchers⟩ := (linkMetas_completes_iff jv _).mpr h.launchers
    rw [hfound, hlinks, hlaunchers]
    exact ⟨_, rfl⟩

theorem resolveNativeURL_urls {host : ManifestHost} {jv : Json}
    {pkg pkg' : Package} (hurls : pkg.urls = [])
    (h : resolveNativeURL host jv pkg = .ok pkg') :
    pkg'.urls ≠ [] ↔ HasArchive host jv := by
  have hlinks := (resolveNativeURL_completes_iff host hurls).mp ⟨pkg', h⟩
  obtain ⟨found, hfound, hiff⟩ := nativeURL_completes host hlinks hurls
  unfold resolveNativeURL at h
  obtain ⟨found', hfound', h⟩ := bind_eq_ok_iff.mp h
  obtain ⟨links, -, h⟩ := bind_eq_ok_iff.mp h
  obtain ⟨launchers, -, h⟩ := bind_eq_ok_iff.mp h
  rw [hfound] at hfound'
  cases hfound'
  cases h
  exact hiff

theorem manifestEnv_completes_iff (jv : Json) :
    Completes (manifestEnv jv) ↔
      ∀ sv, jv.subview (narrow "venv") = some sv → ManifestEnvReadable sv := by
  unfold manifestEnv
  cases jv.subview (narrow "venv") with
  | none => exact iff_of_true (completes_ok _) (by simp)
  | some sv =>
      simp only
      rw [completes_bind_iff fun _ _ => completes_bind_iff fun _ _ =>
        completes_bind_iff fun _ _ => completes_bind_iff fun _ _ =>
          completes_bind_iff fun _ _ => completes_bind_pure_iff]
      simp only [Json.getPathsChecked_completes_iff,
        Json.getStringsChecked_completes_iff, Option.some.injEq, forall_eq']
      constructor
      · rintro ⟨hpath, hinclude, hlib, hmkdir, henv, hdependencies⟩
        exact ⟨hpath, hinclude, hlib, hmkdir, henv, hdependencies⟩
      · rintro ⟨hpath, hinclude, hlib, hmkdir, henv, hdependencies⟩
        exact ⟨hpath, hinclude, hlib, hmkdir, henv, hdependencies⟩

/-- What `PackageMetaNative` does with the package. -/
theorem archiveOrError_completes_iff {host : ManifestHost} {jv : Json}
    {pkg : Package} (ec : ErrorCode) (hurls : pkg.urls = []) :
    Completes (do
      let pkg ← resolveNativeURL host jv pkg
      if pkg.urls.isEmpty then return .error ec
      else
        let venv ← manifestEnv jv
        return (.ok { pkg with venv } : Except ErrorCode Package)) ↔
      LinksReadable jv ∧
        (HasArchive host jv →
          ∀ sv, jv.subview (narrow "venv") = some sv → ManifestEnvReadable sv) := by
  rw [← resolveNativeURL_completes_iff host hurls]
  apply completes_bind_iff
  intro pkg' heq
  have harchive := resolveNativeURL_urls hurls heq
  by_cases hempty : pkg'.urls = []
  · rw [if_pos (List.isEmpty_iff.mpr hempty)]
    exact iff_of_true (completes_ok _) fun h => absurd hempty (harchive.mpr h)
  · rw [if_neg (mt List.isEmpty_iff.mp hempty), completes_bind_pure_iff,
      manifestEnv_completes_iff]
    exact ⟨fun h _ => h, fun h => h (harchive.mp hempty)⟩

theorem packageMetaNative_completes_iff (host : ManifestHost) (bucket : Bucket)
    (pkgName : WString) :
    Completes (packageMetaNative host bucket pkgName) ↔
      ∀ jv, host.parseJsonFile (packageMetaJoinNative host bucket pkgName) =
        .ok jv → NativeReadable host jv := by
  unfold packageMetaNative
  simp only
  cases host.parseJsonFile (packageMetaJoinNative host bucket pkgName) with
  | error ec => exact iff_of_true (completes_ok _) (by simp)
  | ok jv =>
      simp only [Except.ok.injEq, forall_eq']
      refine (completes_bind_iff fun suggest _ => completes_bind_iff fun deletes _ =>
        archiveOrError_completes_iff _ rfl).trans ?_
      rw [Json.getStringsChecked_completes_iff, Json.getPathsChecked_completes_iff]
      constructor
      · rintro ⟨hsuggest, hdeletes, hlinks, henv⟩
        exact ⟨hsuggest, hdeletes, hlinks, henv⟩
      · rintro ⟨hsuggest, hdeletes, hlinks, henv⟩
        exact ⟨hsuggest, hdeletes, hlinks, henv⟩

theorem packageMetaScoop_completes_iff (host : ManifestHost) (bucket : Bucket)
    (pkgName : WString) :
    Completes (packageMetaScoop host bucket pkgName) ↔
      ∀ jv, host.parseJsonFile (packageMetaJoinNative host bucket pkgName) =
        .ok jv → jv.TextsOnly (narrow "bin") := by
  unfold packageMetaScoop
  cases host.parseJsonFile (packageMetaJoinNative host bucket pkgName) with
  | error ec => exact iff_of_true (completes_ok _) (by simp)
  | ok jv =>
      simp only [Except.ok.injEq, forall_eq']
      rw [← linkMetas_completes_iff]
      exact completes_bind_pure_iff

/-- The reader for the bucket gets through the manifest. -/
def ManifestReadable (host : ManifestHost) (bucket : Bucket) (jv : Json) : Prop :=
  match bucket.variant with
  | .native => NativeReadable host jv
  | .scoop => jv.TextsOnly (narrow "bin")
  | .other _ => True

theorem packageMeta_completes_iff (host : ManifestHost) (bucket : Bucket)
    (pkgName : WString) :
    Completes (packageMeta host bucket pkgName) ↔
      ∀ jv, host.parseJsonFile (packageMetaJoinNative host bucket pkgName) =
        .ok jv → ManifestReadable host bucket jv := by
  unfold packageMeta ManifestReadable
  cases bucket.variant with
  | native => exact packageMetaNative_completes_iff host bucket pkgName
  | scoop => exact packageMetaScoop_completes_iff host bucket pkgName
  | other value => exact iff_of_true (completes_ok _) fun _ _ => trivial

/-! ## Lock files and local files -/

theorem packageLocalMeta_completes_iff (buckets : List Bucket)
    (pkj : Except ErrorCode Json) (pkgName : WString) :
    Completes (packageLocalMeta buckets pkj pkgName) ↔
      ∀ jv, pkj = .ok jv → jv.TextsOnly (narrow "force_delete") := by
  unfold packageLocalMeta
  cases pkj with
  | error ec => exact iff_of_true (completes_ok _) (by simp)
  | ok jv =>
      simp only [Except.ok.injEq, forall_eq']
      rw [completes_bind_pure_iff, Json.getPathsChecked_completes_iff]

/-- The lists that a lock file and a local file have in common. -/
structure MembersReadable (jv : Json) : Prop where
  paths : jv.TextsOnly (narrow "path")
  includes : jv.TextsOnly (narrow "include")
  libs : jv.TextsOnly (narrow "lib")
  envs : jv.TextsOnly (narrow "env")

/-- The lists of the environment in a lock file. -/
structure LockEnvReadable (sv : Json) : Prop extends MembersReadable sv where
  dependencies : sv.TextsOnly (narrow "dependencies")

/-- The lists of a local file. -/
structure LocalReadable (jv : Json) : Prop extends MembersReadable jv where
  replace : jv.TextsOnly (narrow "replace")

theorem loadMembers_completes_iff (jv : Json) (env : LoadedEnv) :
    Completes (loadMembers jv env) ↔ MembersReadable jv := by
  unfold loadMembers
  rw [completes_bind_iff fun _ _ => completes_bind_iff fun _ _ =>
    completes_bind_iff fun _ _ => completes_bind_pure_iff]
  simp only [Json.getPathsChecked_completes_iff,
    Json.getStringsChecked_completes_iff]
  constructor
  · rintro ⟨hpath, hinclude, hlib, henv⟩
    exact ⟨hpath, hinclude, hlib, henv⟩
  · rintro ⟨hpath, hinclude, hlib, henv⟩
    exact ⟨hpath, hinclude, hlib, henv⟩

theorem loadPackageLocalEnv_completes_iff (jo : Except ErrorCode Json)
    (env : LoadedEnv) :
    Completes (loadPackageLocalEnv jo env) ↔ ∀ jv, jo = .ok jv → LocalReadable jv := by
  unfold loadPackageLocalEnv
  cases jo with
  | error ec => exact iff_of_true (completes_ok _) (by simp)
  | ok jv =>
      simp only [Except.ok.injEq, forall_eq']
      refine (completes_bind_iff fun env _ => completes_bind_pure_iff).trans ?_
      rw [loadMembers_completes_iff, Json.getStringsChecked_completes_iff]
      constructor
      · rintro ⟨hmembers, hreplace⟩
        exact ⟨hmembers, hreplace⟩
      · rintro ⟨hmembers, hreplace⟩
        exact ⟨hmembers, hreplace⟩

/-- The environment of the lock file, and the local file if there is one. -/
theorem loadPackageEnv_completes_iff (lock localEnv : Except ErrorCode Json)
    (pkgName : WString) :
    Completes (loadPackageEnv lock localEnv pkgName) ↔
      ∀ jv, lock = .ok jv →
        (∀ sv, jv.subview (narrow "venv") = some sv → LockEnvReadable sv) ∧
          ∀ jo, localEnv = .ok jo → LocalReadable jo := by
  unfold loadPackageEnv
  cases lock with
  | error ec => exact iff_of_true (completes_ok _) (by simp)
  | ok jv =>
      simp only [Except.ok.injEq, forall_eq']
      have hlocal : ∀ env : LoadedEnv, Completes (do
          let env ← loadPackageLocalEnv localEnv env
          return (.ok env : Except ErrorCode LoadedEnv)) ↔
          ∀ jo, localEnv = .ok jo → LocalReadable jo := fun env =>
        completes_bind_pure_iff.trans (loadPackageLocalEnv_completes_iff localEnv env)
      cases jv.subview (narrow "venv") with
      | none =>
          refine (hlocal { name := pkgName }).trans ?_
          exact (iff_of_eq (true_and _)).symm.trans (and_congr_left fun _ => by simp)
      | some sv =>
          simp only [Option.some.injEq, forall_eq']
          refine (completes_bind_iff fun env _ => completes_bind_iff
            fun dependencies _ => hlocal _).trans ?_
          rw [loadMembers_completes_iff, Json.getStringsChecked_completes_iff,
            ← and_assoc]
          refine and_congr_left fun _ => ?_
          constructor
          · rintro ⟨hmembers, hdependencies⟩
            exact ⟨hmembers, hdependencies⟩
          · rintro ⟨hmembers, hdependencies⟩
            exact ⟨hmembers, hdependencies⟩

/-- Every reader returns exactly for the documents whose lists hold texts. -/
theorem readers_complete_iff (host : ManifestHost) (bucket : Bucket)
    (pkgName : WString) (buckets : List Bucket)
    (lock localEnv : Except ErrorCode Json) :
    (Completes (packageMeta host bucket pkgName) ↔
      ∀ jv, host.parseJsonFile (packageMetaJoinNative host bucket pkgName) =
        .ok jv → ManifestReadable host bucket jv) ∧
    (Completes (packageLocalMeta buckets lock pkgName) ↔
      ∀ jv, lock = .ok jv → jv.TextsOnly (narrow "force_delete")) ∧
    (Completes (loadPackageEnv lock localEnv pkgName) ↔
      ∀ jv, lock = .ok jv →
        (∀ sv, jv.subview (narrow "venv") = some sv → LockEnvReadable sv) ∧
          ∀ jo, localEnv = .ok jo → LocalReadable jo) :=
  ⟨packageMeta_completes_iff host bucket pkgName,
    packageLocalMeta_completes_iff buckets lock pkgName,
    loadPackageEnv_completes_iff lock localEnv pkgName⟩

/-- A Scoop manifest that gives its program another name: `bin` is an array with
an array in it. -/
theorem packageMeta_bin_throws :
    ¬ ∀ (host : ManifestHost) (bucket : Bucket) (pkgName : WString),
      Completes (packageMeta host bucket pkgName) := by
  intro h
  let bin : Json :=
    .array [.array [.string (narrow "7z.exe"), .string (narrow "7zip")]]
  let manifest : Json := Json.null.setMember (narrow "bin") bin
  have hall := h { parseJsonFile := fun _ => .ok manifest, appBuckets := [] }
    { name := wide "scoop", variant := .scoop } (wide "7zip")
  have hreadable : manifest.TextsOnly (narrow "bin") :=
    (packageMeta_completes_iff _ _ _).mp hall manifest rfl
  have hbin : manifest.find (narrow "bin") = some bin := by
    rw [Json.IsMap.null.find_setMember, if_pos rfl]
  obtain ⟨raw, hraw⟩ := hreadable _ hbin _ List.mem_cons_self
  cases hraw

end Baulk.Pkg
