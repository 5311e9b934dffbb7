import Baulk.Pkg.Install
import Baulk.Pkg.Selection

/-!
# Updating an installed package

`PackageUpdatableMeta` looks for an update of an installed package, and
`Install` asks once more whether the package is installed already.  Both compare
a manifest with the version and the weights of the lock file; the weights are
those of the loaded bucket that the lock file names.

If the buckets have different names and the versions are ordered, the two
agree, and after the update was installed there is none any more.
-/

namespace Baulk.Pkg

open Support (champion champion_eq_none_iff champion_greatest mem_of_champion
  IsGreatest)

/-! ## The loaded buckets -/

/-- A number of a profile as a `BucketObserveMode`. -/
def BucketObserveMode.ofInt (value : Int) : BucketObserveMode :=
  if value = 0 then .github else if value = 1 then .git else .other value

/-- A number of a profile as a `BucketVariant`. -/
def BucketVariant.ofInt (value : Int) : BucketVariant :=
  if value = 0 then .native else if value = 1 then .scoop else .other value

def Bucket.ofProfile (sv : Json) : Bucket where
  description := sv.get (narrow "description")
  name := sv.get (narrow "name")
  url := sv.get (narrow "url")
  weights := ((sv.getAsInteger (narrow "weights")).map Json.toInt).getD 100
  mode := .ofInt (((sv.getAsInteger (narrow "mode")).map Json.toInt).getD 0)
  variant :=
    .ofInt (((sv.getAsInteger (narrow "variant")).map Json.toInt).getD 0)

/-- The bucket that is used without a profile. -/
def defaultBucket : Bucket where
  description := wide "Baulk default bucket"
  name := wide "Baulk"
  url := wide "https://github.com/baulk/bucket"

/-- `LoadedBuckets`, from what `parse_json_file` makes of the profile. -/
def loadedBuckets (profile : Except ErrorCode Json) : List Bucket :=
  match profile with
  | .error _ => [defaultBucket]
  | .ok jv => (jv.subviews (narrow "bucket")).map Bucket.ofProfile

theorem paired_name {profile : Except ErrorCode Json} {bucket : Bucket}
    (h : bucket ∈ loadedBuckets profile) : Paired bucket.name := by
  unfold loadedBuckets at h
  split at h
  · rw [List.mem_singleton] at h
    subst h
    decide
  · obtain ⟨sv, -, rfl⟩ := List.mem_map.mp h
    exact Json.paired_get sv _ rfl

/-- The names of the buckets differ, also if case is ignored. -/
def DistinctNames (buckets : List Bucket) : Prop :=
  buckets.Pairwise fun a b => equalsIgnoreCase a.name b.name = false

instance (buckets : List Bucket) : Decidable (DistinctNames buckets) :=
  inferInstanceAs (Decidable (buckets.Pairwise fun a b =>
    equalsIgnoreCase a.name b.name = false))

theorem bucketWeights_of_mem {buckets : List Bucket}
    (h : DistinctNames buckets) {bucket : Bucket} (hmem : bucket ∈ buckets) :
    bucketWeights buckets bucket.name = bucket.weights := by
  have hfind : buckets.find? (fun loaded =>
      equalsIgnoreCase loaded.name bucket.name) = some bucket := by
    induction buckets with
    | nil => cases hmem
    | cons first buckets ih =>
        rw [DistinctNames, List.pairwise_cons] at h
        rcases List.mem_cons.mp hmem with rfl | hmem
        · exact List.find?_cons_of_pos (by simp [equalsIgnoreCase])
        · rw [List.find?_cons_of_neg (by simp [h.1 bucket hmem])]
          exact ih h.2 hmem
  rw [bucketWeights, hfind]

/-! ## The guard of `Install` -/

/-- `Install` takes the package for installed already. -/
def alreadyInstalled (pkg pkgLocal : Package) : Bool :=
  let order := (Version.ofText pkg.version).compare
    (Version.ofText pkgLocal.version)
  order < 0 || (order == 0 && pkg.weights ≤ pkgLocal.weights)

theorem alreadyInstalled_eq_false_iff {pkg pkgLocal : Package} :
    alreadyInstalled pkg pkgLocal = false ↔ Beats pkg.rank pkgLocal.rank := by
  simp only [alreadyInstalled, Bool.or_eq_false_iff, Bool.and_eq_false_iff,
    decide_eq_false_iff_not, beq_eq_false_iff_ne, Beats, Package.rank]
  omega

/-! ## One update is enough -/

/-- The version of an installed package, or of a candidate. -/
def VersionInPlay (host : ManifestHost) (buckets : List Bucket)
    (pkgLocal : Package) (v : Version) : Prop :=
  v = Version.ofText pkgLocal.version ∨
    ∃ c ∈ candidates host buckets pkgLocal.name, v = Version.ofText c.version

/-- What looking for an update is for: one is found if and only if a candidate
passes the guard of `Install`, it passes the guard itself and no candidate
surpasses it, and when the lock file was written for it there is no update. -/
structure UpdatesOnce (host : ManifestHost) (buckets : List Bucket)
    (pkgLocal : Package) (update : Option Package) : Prop where
  found : update.isSome = true ↔
    ∃ c ∈ candidates host buckets pkgLocal.name,
      alreadyInstalled c pkgLocal = false
  mem : ∀ c, update = some c → c ∈ candidates host buckets pkgLocal.name
  guard : ∀ c, update = some c →
    c.name = pkgLocal.name ∧ alreadyInstalled c pkgLocal = false
  greatest : ∀ c, update = some c →
    IsGreatest Package.rank Beats (candidates host buckets pkgLocal.name) c
  fixpoint : ∀ c, update = some c → ∀ lockHost doc,
    packageLocalMetaWrite lockHost c = .ok doc →
    ∃ pkgLocal', packageLocalMeta buckets (.ok doc) c.name =
        .ok (.ok pkgLocal') ∧
      packageUpdatableMeta host buckets pkgLocal' = .ok none

/-- The lock file of a candidate is read with its name and its rank. -/
theorem packageLocalMeta_candidate {host : ManifestHost}
    {profile : Except ErrorCode Json}
    (hnames : DistinctNames (loadedBuckets profile)) {pkgName : WString}
    {c : Package} (hc : c ∈ candidates host (loadedBuckets profile) pkgName)
    {lockHost : LockHost} {doc : Json}
    (hwrite : packageLocalMetaWrite lockHost c = .ok doc) :
    ∃ pkgLocal, packageLocalMeta (loadedBuckets profile) (.ok doc) c.name =
        .ok (.ok pkgLocal) ∧
      pkgLocal.name = pkgName ∧ pkgLocal.rank = c.rank := by
  obtain ⟨bucket, hbucket, pkgN, hmeta, rfl⟩ := mem_candidates.mp hc
  obtain ⟨hname, ⟨jv, hversion⟩, -⟩ := packageMeta_fromManifest hmeta
  rw [packageLocalMetaWrite_ok hwrite, packageLocalMeta_lockObject]
  refine ⟨_, rfl, hname, Prod.ext ?_ ?_⟩
  · have hpaired : Paired pkgN.version := by
      rw [hversion]
      exact Json.paired_get jv _ rfl
    change Version.ofText (pairedPart pkgN.version) = _
    rw [hpaired]
    rfl
  · change bucketWeights _ (pairedPart bucket.name) = bucket.weights
    rw [paired_name hbucket]
    exact bucketWeights_of_mem hnames hbucket

/-- Looking for an update does what it is for exactly if no manifest makes the
reader throw. -/
theorem packageUpdatableMeta_iff {host : ManifestHost}
    {profile pkj : Except ErrorCode Json} {pkgName : WString}
    {pkgLocal : Package}
    (hnames : DistinctNames (loadedBuckets profile))
    (hlocal : packageLocalMeta (loadedBuckets profile) pkj pkgName =
      .ok (.ok pkgLocal))
    (horder : Version.TotalOn
      (VersionInPlay host (loadedBuckets profile) pkgLocal)) :
    (∃ update,
      packageUpdatableMeta host (loadedBuckets profile) pkgLocal =
        .ok update ∧
      UpdatesOnce host (loadedBuckets profile) pkgLocal update) ↔
      NoThrow host (loadedBuckets profile) pkgName := by
  have hname : pkgLocal.name = pkgName := by
    unfold packageLocalMeta at hlocal
    split at hlocal
    · cases hlocal
    · obtain ⟨deletes, -, h⟩ := bind_eq_ok_iff.mp hlocal
      cases h
      rfl
  rw [← hname]
  constructor
  · rintro ⟨update, hupdate, -⟩
    by_contra hthrow
    obtain ⟨thrown, hloop⟩ := bucketLoop_throw hthrow UpdateState.consider
      { pkgVersion := Version.ofText pkgLocal.version
        weights := pkgLocal.weights }
    rw [packageUpdatableMeta, hloop] at hupdate
    cases hupdate
  · intro hthrow
    have htotal := strictTotalOn_beats horder
    have hmem : ∀ c ∈ candidates host (loadedBuckets profile) pkgLocal.name,
        VersionInPlay host (loadedBuckets profile) pkgLocal c.rank.1 :=
      fun c hc => .inr ⟨c, hc, rfl⟩
    refine ⟨_, packageUpdatableMeta_ok hthrow, ?_, ?_, ?_, ?_, ?_⟩
    · simp only [alreadyInstalled_eq_false_iff]
      rw [Option.isSome_iff_ne_none, ne_eq, champion_eq_none_iff]
      simp only [not_forall, not_not, exists_prop]
    · exact fun c hc => mem_of_champion hc
    · intro c hc
      obtain ⟨bucket, -, pkgN, hmeta, rfl⟩ :=
        mem_candidates.mp (mem_of_champion hc)
      refine ⟨(packageMeta_fromManifest hmeta).name, ?_⟩
      rw [alreadyInstalled_eq_false_iff]
      exact (champion_greatest htotal (.inl rfl) hmem hc).1
    · exact fun c hc => (champion_greatest htotal (.inl rfl) hmem hc).2
    · intro c hc lockHost doc hwrite
      obtain ⟨pkgLocal', hread, hname', hrank⟩ :=
        packageLocalMeta_candidate hnames (mem_of_champion hc) hwrite
      refine ⟨pkgLocal', hread, ?_⟩
      rw [packageUpdatableMeta_ok (by rwa [hname']), hname', hrank]
      -- No candidate beats the one that was installed.
      have hnone : champion Package.rank Beats c.rank
          (candidates host (loadedBuckets profile) pkgLocal.name) = none := by
        rw [champion_eq_none_iff]
        intro x hx hbeats
        rcases (champion_greatest htotal (.inl rfl) hmem hc).2 x hx with
          heq | hbeats'
        · rw [heq] at hbeats
          exact beats_asymm _ _ hbeats hbeats
        · exact beats_asymm _ _ hbeats hbeats'
      rw [hnone]

/-! ### A manifest with a number among its suggestions -/

/-- A manifest of version `2.0` with some suggestions. -/
def suggestingManifest (suggest : List Json) : Json :=
  let archive := Json.null.setMember (narrow "url")
    (.string (narrow "https://a/a.zip"))
  let jv := Json.null.setMember (narrow "version") (.string (narrow "2.0"))
  let jv := jv.setMember (narrow "suggest") (.array suggest)
  jv.setMember (narrow "architecture")
    (Json.null.setMember (narrow "64bit") archive)

def suggestingHost (suggest : List Json) : ManifestHost where
  parseJsonFile _ := .ok (suggestingManifest suggest)
  appBuckets := wide "C:\\buckets"

/-- The lock file of version `1.0`. -/
def oldLock : Json :=
  lockObject [] { version := wide "1.0", bucket := wide "Baulk" }

/-- What is installed. -/
def oldPackage : Package where
  name := wide "a"
  version := wide "1.0"
  bucket := wide "Baulk"
  weights := 99

theorem packageLocalMeta_oldLock :
    packageLocalMeta (loadedBuckets (.error {})) (.ok oldLock) (wide "a") =
      .ok (.ok oldPackage) :=
  rfl

theorem totalOn_versionInPlay_suggesting (suggest : List Json)
    (h : ∀ c ∈ candidates (suggestingHost suggest) (loadedBuckets (.error {}))
      (wide "a"), (Version.ofText c.version).Small) :
    Version.TotalOn (VersionInPlay (suggestingHost suggest)
      (loadedBuckets (.error {})) oldPackage) := by
  refine Version.totalOn_small.mono ?_
  rintro v (rfl | ⟨c, hc, rfl⟩)
  · decide
  · exact h c hc

theorem packageUpdatableMeta_suggesting :
    ∃ update,
      packageUpdatableMeta (suggestingHost [.string (narrow "b")])
        (loadedBuckets (.error {})) oldPackage = .ok update ∧
      UpdatesOnce (suggestingHost [.string (narrow "b")])
        (loadedBuckets (.error {})) oldPackage update := by
  refine (packageUpdatableMeta_iff (by decide)
    packageLocalMeta_oldLock (totalOn_versionInPlay_suggesting _ ?_)).mpr ?_
  · intro c hc
    obtain ⟨bucket, hbucket, pkgN, hmeta, rfl⟩ := mem_candidates.mp hc
    cases List.mem_singleton.mp hbucket
    cases hmeta
    decide
  · intro bucket hbucket
    cases List.mem_singleton.mp hbucket
    rfl

/-- With a number among the suggestions looking for an update throws. -/
theorem packageUpdatableMeta_throws :
    DistinctNames (loadedBuckets (.error {})) ∧
      packageLocalMeta (loadedBuckets (.error {})) (.ok oldLock) (wide "a") =
        .ok (.ok oldPackage) ∧
      Version.TotalOn (VersionInPlay (suggestingHost [.number (.integer 1)])
        (loadedBuckets (.error {})) oldPackage) ∧
      ¬ ∃ update,
        packageUpdatableMeta (suggestingHost [.number (.integer 1)])
          (loadedBuckets (.error {})) oldPackage = .ok update ∧
        UpdatesOnce (suggestingHost [.number (.integer 1)])
          (loadedBuckets (.error {})) oldPackage update := by
  refine ⟨by decide, packageLocalMeta_oldLock,
    totalOn_versionInPlay_suggesting _ nofun, ?_⟩
  rintro ⟨update, hupdate, -⟩
  cases hupdate

end Baulk.Pkg
