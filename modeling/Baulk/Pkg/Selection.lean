import Baulk.Core.Version
import Baulk.Pkg.Metadata
import Baulk.Support.Champion

/-!
# The best manifest

Several buckets may have a manifest of the same package.  `PackageMetaEx` and
`PackageUpdatableMeta` go over the buckets and keep the manifest with the
highest version, and among equal versions the one with the highest weights.
The first starts from an empty package of the version `0.0.0`, the second from
the version that is installed.
-/

namespace Baulk.Pkg

open Support (champion champion_eq_greatest_iff exists_champion_greatest_iff
  IsGreatest StrictTotalOn)

/-- What decides between two packages. -/
abbrev Rank := Version × Int

def Package.rank (pkg : Package) : Rank :=
  (Version.ofText pkg.version, pkg.weights)

/-- A newer version, or the same version with more weights. -/
def Beats (new old : Rank) : Prop :=
  0 < Version.compare new.1 old.1 ∨
    Version.compare new.1 old.1 = 0 ∧ old.2 < new.2

instance : DecidableRel Beats := fun new old =>
  inferInstanceAs (Decidable (0 < Version.compare new.1 old.1 ∨
    Version.compare new.1 old.1 = 0 ∧ old.2 < new.2))

def Package.ofBucket (pkg : Package) (bucket : Bucket) : Package :=
  { pkg with bucket := bucket.name, weights := bucket.weights }

/-- The loop over the buckets that both functions have: what they do with the
package of each bucket that has one. -/
def bucketLoop {σ : Type} (host : ManifestHost) (pkgName : WString)
    (consider : σ → Package → σ) : List Bucket → σ → Except ErrorCode σ
  | [], st => .ok st
  | bucket :: buckets, st => do
      match ← packageMeta host bucket pkgName with
      | .error _ => bucketLoop host pkgName consider buckets st
      | .ok pkgN =>
          bucketLoop host pkgName consider buckets
            (consider st (pkgN.ofBucket bucket))

/-! ## The package of a name -/

def errPackageNotYetPorted : Int :=
  ErrorCode.errUnimplemented + 1000

/-- The variables of `PackageMetaEx`. -/
structure MetaState where
  pkgVersion : Version := {}
  pkg : Package := {}
  pkgSame : Nat := 0

/-- The body of the loop of `PackageMetaEx`. -/
def MetaState.consider (st : MetaState) (pkgN : Package) : MetaState :=
  let newVersion := Version.ofText pkgN.version
  let st := { st with pkgSame := st.pkgSame + 1 }
  if Beats (newVersion, pkgN.weights) (st.pkgVersion, st.pkg.weights) then
    { st with pkg := pkgN, pkgVersion := newVersion }
  else st

def packageMetaEx (host : ManifestHost) (buckets : List Bucket)
    (pkgName : WString) : Except ErrorCode (Except ErrorCode Package) := do
  let st ← bucketLoop host pkgName MetaState.consider buckets {}
  if st.pkgSame = 0 then
    return .error (ErrorCode.make errPackageNotYetPorted
      (wide "'" ++ pkgName ++ wide "' not yet ported."))
  else return .ok st.pkg

/-! ## The update of an installed package -/

/-- The variables of `PackageUpdatableMeta`; the package is set when an update
was found. -/
structure UpdateState where
  pkgVersion : Version
  weights : Int
  pkg : Option Package := none

/-- The body of the loop of `PackageUpdatableMeta`. -/
def UpdateState.consider (st : UpdateState) (pkgN : Package) : UpdateState :=
  let newVersion := Version.ofText pkgN.version
  if Beats (newVersion, pkgN.weights) (st.pkgVersion, st.weights) then
    { pkgVersion := newVersion, weights := pkgN.weights, pkg := some pkgN }
  else st

/-- `PackageUpdatableMeta`: the update, if it returns true. -/
def packageUpdatableMeta (host : ManifestHost) (buckets : List Bucket)
    (pkgLocal : Package) : Except ErrorCode (Option Package) := do
  let st ← bucketLoop host pkgLocal.name UpdateState.consider buckets
    { pkgVersion := Version.ofText pkgLocal.version
      weights := pkgLocal.weights }
  return st.pkg

/-! ## Candidates -/

/-- The package that a bucket has, if its manifest is valid. -/
def candidate (host : ManifestHost) (pkgName : WString) (bucket : Bucket) :
    Option Package :=
  match packageMeta host bucket pkgName with
  | .ok (.ok pkgN) => some (pkgN.ofBucket bucket)
  | _ => none

def candidates (host : ManifestHost) (buckets : List Bucket)
    (pkgName : WString) : List Package :=
  buckets.filterMap (candidate host pkgName)

/-- No manifest makes the reader throw. -/
def NoThrow (host : ManifestHost) (buckets : List Bucket) (pkgName : WString) :
    Prop :=
  ∀ bucket ∈ buckets, (packageMeta host bucket pkgName).isOk = true

theorem bucketLoop_ok {σ : Type} {host : ManifestHost} {pkgName : WString}
    {buckets : List Bucket} (h : NoThrow host buckets pkgName)
    (consider : σ → Package → σ) (st : σ) :
    bucketLoop host pkgName consider buckets st =
      .ok ((candidates host buckets pkgName).foldl consider st) := by
  induction buckets generalizing st with
  | nil => rfl
  | cons bucket buckets ih =>
      rw [NoThrow, List.forall_mem_cons] at h
      obtain ⟨hbucket, hrest⟩ := h
      rw [bucketLoop, candidates, List.filterMap_cons]
      cases hmeta : packageMeta host bucket pkgName with
      | error thrown =>
          rw [hmeta] at hbucket
          cases hbucket
      | ok result =>
          cases result with
          | error ec =>
              rw [candidate, hmeta]
              exact ih hrest st
          | ok pkgN =>
              rw [candidate, hmeta]
              exact ih hrest _

theorem bucketLoop_throw {σ : Type} {host : ManifestHost} {pkgName : WString}
    {buckets : List Bucket} (h : ¬ NoThrow host buckets pkgName)
    (consider : σ → Package → σ) (st : σ) :
    ∃ thrown, bucketLoop host pkgName consider buckets st = .error thrown := by
  induction buckets generalizing st with
  | nil => exact absurd (fun _ hmem => nomatch hmem) h
  | cons bucket buckets ih =>
      rw [bucketLoop]
      cases hmeta : packageMeta host bucket pkgName with
      | error thrown => exact ⟨thrown, rfl⟩
      | ok result =>
          have hrest : ¬ NoThrow host buckets pkgName := by
            intro hrest
            refine h (List.forall_mem_cons.mpr ⟨?_, hrest⟩)
            rw [hmeta]
            rfl
          cases result with
          | error ec => exact ih hrest st
          | ok pkgN => exact ih hrest _

theorem foldl_metaState (cs : List Package) (st : MetaState) :
    (cs.foldl MetaState.consider st).pkgSame = st.pkgSame + cs.length ∧
      (cs.foldl MetaState.consider st).pkg =
        (champion Package.rank Beats (st.pkgVersion, st.pkg.weights) cs).getD
          st.pkg := by
  induction cs generalizing st with
  | nil => exact ⟨rfl, rfl⟩
  | cons c cs ih =>
      rw [List.foldl_cons, List.length_cons, champion]
      obtain ⟨hsame, hpkg⟩ := ih (st.consider c)
      rw [hsame, hpkg]
      by_cases hbeats : Beats c.rank (st.pkgVersion, st.pkg.weights)
      · have hconsider : st.consider c =
            { pkgVersion := Version.ofText c.version, pkg := c,
              pkgSame := st.pkgSame + 1 } :=
          if_pos hbeats
        rw [if_pos hbeats, hconsider]
        refine ⟨?_, rfl⟩
        dsimp only
        omega
      · have hconsider : st.consider c =
            { st with pkgSame := st.pkgSame + 1 } :=
          if_neg hbeats
        rw [if_neg hbeats, hconsider]
        refine ⟨?_, rfl⟩
        dsimp only
        omega

theorem foldl_updateState (cs : List Package) (st : UpdateState) :
    (cs.foldl UpdateState.consider st).pkg =
      (champion Package.rank Beats (st.pkgVersion, st.weights) cs).or
        st.pkg := by
  induction cs generalizing st with
  | nil => rfl
  | cons c cs ih =>
      rw [List.foldl_cons, champion, ih]
      by_cases hbeats : Beats c.rank (st.pkgVersion, st.weights)
      · have hconsider : st.consider c =
            { pkgVersion := Version.ofText c.version, weights := c.weights,
              pkg := some c } :=
          if_pos hbeats
        rw [if_pos hbeats, hconsider]
        change (champion Package.rank Beats c.rank cs).or (some c) = _
        cases champion Package.rank Beats c.rank cs with
        | none => rfl
        | some c' => rfl
      · have hconsider : st.consider c = st := if_neg hbeats
        rw [if_neg hbeats, hconsider]

/-- The rank that `PackageMetaEx` starts from. -/
def bottomRank : Rank := ({}, 0)

/-- `PackageMetaEx` finds no candidate, or ends with their champion. -/
theorem packageMetaEx_ok {host : ManifestHost} {buckets : List Bucket}
    {pkgName : WString} (h : NoThrow host buckets pkgName) :
    packageMetaEx host buckets pkgName =
      .ok (if candidates host buckets pkgName = [] then
        .error (ErrorCode.make errPackageNotYetPorted
          (wide "'" ++ pkgName ++ wide "' not yet ported."))
      else
        .ok ((champion Package.rank Beats bottomRank
          (candidates host buckets pkgName)).getD {})) := by
  obtain ⟨hsame, hpkg⟩ := foldl_metaState (candidates host buckets pkgName) {}
  rw [packageMetaEx, bucketLoop_ok h]
  simp only [bind, Except.bind, hsame, hpkg, Nat.zero_add,
    List.length_eq_zero_iff]
  split <;> rfl

/-- `PackageUpdatableMeta` ends with the champion of the candidates. -/
theorem packageUpdatableMeta_ok {host : ManifestHost} {buckets : List Bucket}
    {pkgLocal : Package} (h : NoThrow host buckets pkgLocal.name) :
    packageUpdatableMeta host buckets pkgLocal =
      .ok (champion Package.rank Beats pkgLocal.rank
        (candidates host buckets pkgLocal.name)) := by
  rw [packageUpdatableMeta, bucketLoop_ok h]
  simp only [bind, Except.bind, foldl_updateState, Option.or_none]
  rfl

theorem beats_asymm (a b : Rank) (h : Beats a b) : ¬ Beats b a := by
  rintro (hba | ⟨hba, hweights⟩)
  · have hab := Version.compare_asymm hba
    rcases h with h | ⟨h, -⟩ <;> omega
  · rcases h with h | ⟨-, h⟩
    · have hab := Version.compare_asymm h
      omega
    · omega

/-! ## What is selected -/

/-- The package of the first bucket whose candidate no other one surpasses. -/
def Selected (host : ManifestHost) (buckets : List Bucket) (pkgName : WString)
    (pkg : Package) : Prop :=
  ∃ front bucket back pkgN, buckets = front ++ bucket :: back ∧
    packageMeta host bucket pkgName = .ok (.ok pkgN) ∧
    pkg = { pkgN with bucket := bucket.name, weights := bucket.weights } ∧
    IsGreatest Package.rank Beats (candidates host buckets pkgName) pkg ∧
    ∀ c ∈ candidates host front pkgName,
      ¬ IsGreatest Package.rank Beats (candidates host buckets pkgName) c

/-- The first of some packages that none of the candidates surpasses. -/
def firstGreatest (cs pkgs : List Package) : Option Package :=
  pkgs.find? fun pkg => decide (IsGreatest Package.rank Beats cs pkg)

theorem candidate_eq_some_iff {host : ManifestHost} {pkgName : WString}
    {bucket : Bucket} {pkg : Package} :
    candidate host pkgName bucket = some pkg ↔
      ∃ pkgN, packageMeta host bucket pkgName = .ok (.ok pkgN) ∧
        pkg = pkgN.ofBucket bucket := by
  unfold candidate
  split
  · rename_i pkgN hmeta
    rw [hmeta]
    constructor
    · intro h
      cases h
      exact ⟨pkgN, rfl, rfl⟩
    · rintro ⟨pkgN', hpkgN, rfl⟩
      cases hpkgN
      rfl
  · rename_i hother
    constructor
    · nofun
    · rintro ⟨pkgN, hmeta, -⟩
      exact absurd hmeta (hother pkgN)

theorem mem_candidates {host : ManifestHost} {buckets : List Bucket}
    {pkgName : WString} {c : Package} :
    c ∈ candidates host buckets pkgName ↔
      ∃ bucket ∈ buckets, ∃ pkgN,
        packageMeta host bucket pkgName = .ok (.ok pkgN) ∧
          c = pkgN.ofBucket bucket := by
  simp only [candidates, List.mem_filterMap, candidate_eq_some_iff]

/-- A candidate is not the empty package that `PackageMetaEx` starts from. -/
theorem ne_default_of_mem {host : ManifestHost} {buckets : List Bucket}
    {pkgName : WString} {c : Package}
    (hc : c ∈ candidates host buckets pkgName) : c ≠ {} := by
  obtain ⟨bucket, -, pkgN, hmeta, rfl⟩ := mem_candidates.mp hc
  intro h
  exact (packageMeta_fromManifest hmeta).urls (congrArg Package.urls h)

theorem selected_iff {host : ManifestHost} {buckets : List Bucket}
    {pkgName : WString} {pkg : Package} :
    Selected host buckets pkgName pkg ↔
      firstGreatest (candidates host buckets pkgName)
        (candidates host buckets pkgName) = some pkg := by
  rw [Selected, firstGreatest]
  conv_rhs => lhs; rhs; rw [candidates]
  rw [List.find?_filterMap, Option.bind_eq_some_iff]
  constructor
  · rintro ⟨front, bucket, back, pkgN, rfl, hmeta, rfl, hgreatest, hfront⟩
    have hcandidate : candidate host pkgName bucket =
        some (pkgN.ofBucket bucket) :=
      candidate_eq_some_iff.mpr ⟨pkgN, hmeta, rfl⟩
    refine ⟨bucket, ?_, hcandidate⟩
    rw [List.find?_eq_some_iff_append]
    refine ⟨?_, front, back, rfl, ?_⟩
    · rw [hcandidate]
      exact decide_eq_true hgreatest
    · intro earlier hearlier
      cases hc : candidate host pkgName earlier with
      | none => rfl
      | some c =>
          have hmem : c ∈ candidates host front pkgName :=
            List.mem_filterMap.mpr ⟨earlier, hearlier, hc⟩
          simpa using hfront c hmem
  · rintro ⟨bucket, hfind, hcandidate⟩
    rw [List.find?_eq_some_iff_append] at hfind
    obtain ⟨hgreatest, front, back, hbuckets, hfront⟩ := hfind
    obtain ⟨pkgN, hmeta, rfl⟩ := candidate_eq_some_iff.mp hcandidate
    refine ⟨front, bucket, back, pkgN, hbuckets, hmeta, rfl, ?_, ?_⟩
    · rw [hcandidate] at hgreatest
      exact of_decide_eq_true hgreatest
    · intro c hc
      obtain ⟨earlier, hearlier, hc⟩ := List.mem_filterMap.mp hc
      have hnot := hfront earlier hearlier
      rw [hc] at hnot
      simpa using hnot

/-- What `PackageMetaEx` is for: it returns the package of the first bucket that
no other one surpasses, and an error only if no bucket has a package. -/
def Selects (host : ManifestHost) (buckets : List Bucket)
    (pkgName : WString) : Prop :=
  (∃ pkg, packageMetaEx host buckets pkgName = .ok (.ok pkg) ∧
      Selected host buckets pkgName pkg) ∧
    ∀ ec, packageMetaEx host buckets pkgName = .ok (.error ec) →
      candidates host buckets pkgName = []

theorem selects_iff_champion {host : ManifestHost} {buckets : List Bucket}
    {pkgName : WString} :
    Selects host buckets pkgName ↔
      NoThrow host buckets pkgName ∧
        ∃ pkg, firstGreatest (candidates host buckets pkgName)
            (candidates host buckets pkgName) = some pkg ∧
          champion Package.rank Beats bottomRank
            (candidates host buckets pkgName) = some pkg := by
  unfold Selects
  by_cases hthrow : NoThrow host buckets pkgName
  · rw [packageMetaEx_ok hthrow, and_iff_right hthrow]
    simp only [selected_iff]
    have hdefault := @ne_default_of_mem host buckets pkgName
    generalize candidates host buckets pkgName = cs at hdefault
    -- A package that is found is the champion, not the empty package.
    have hchampion : ∀ pkg, firstGreatest cs cs = some pkg →
        ((champion Package.rank Beats bottomRank cs).getD {} = pkg ↔
          champion Package.rank Beats bottomRank cs = some pkg) := by
      intro pkg hpkg
      have hmem : pkg ∈ cs := List.mem_of_find?_eq_some hpkg
      cases champion Package.rank Beats bottomRank cs with
      | none => exact iff_of_false (fun h => hdefault hmem h.symm) (by simp)
      | some c => exact Option.some_inj.symm
    constructor
    · rintro ⟨⟨pkg, hpkg, hgreatest⟩, -⟩
      have hne : cs ≠ [] := by
        rintro rfl
        cases hgreatest
      rw [if_neg hne, Except.ok.injEq, Except.ok.injEq] at hpkg
      exact ⟨pkg, hgreatest, (hchampion pkg hgreatest).mp hpkg⟩
    · rintro ⟨pkg, hgreatest, hfirst⟩
      have hne : cs ≠ [] := by
        rintro rfl
        cases hgreatest
      rw [if_neg hne]
      refine ⟨⟨pkg, ?_, hgreatest⟩, by simp⟩
      rw [(hchampion pkg hgreatest).mpr hfirst]
  · obtain ⟨thrown, hloop⟩ := bucketLoop_throw hthrow MetaState.consider {}
    refine iff_of_false ?_ fun h => hthrow h.1
    rintro ⟨⟨pkg, hpkg, -⟩, -⟩
    rw [packageMetaEx, hloop] at hpkg
    cases hpkg

/-- `PackageMetaEx` does what it is for exactly if no manifest makes the reader
throw and the first candidate that no other one surpasses is still the first
one behind the candidates that do not beat the version `0.0.0` with no
weights. -/
theorem packageMetaEx_selects_iff (host : ManifestHost)
    (buckets : List Bucket) (pkgName : WString) :
    Selects host buckets pkgName ↔
      NoThrow host buckets pkgName ∧
        ∃ pkg, firstGreatest (candidates host buckets pkgName)
            (candidates host buckets pkgName) = some pkg ∧
          firstGreatest (candidates host buckets pkgName)
            ((candidates host buckets pkgName).dropWhile fun c =>
              !decide (Beats c.rank bottomRank)) = some pkg := by
  rw [selects_iff_champion]
  refine and_congr_right fun _ => exists_congr fun pkg => ?_
  exact and_congr_right fun hpkg => champion_eq_greatest_iff beats_asymm hpkg

/-! ### On versions that are ordered -/

theorem strictTotalOn_beats {s : Version → Prop} (h : Version.TotalOn s) :
    StrictTotalOn Beats fun rank => s rank.1 where
  total a b ha hb hab := by
    rw [Beats, not_or, not_and] at hab
    rcases lt_trichotomy (Version.compare a.1 b.1) 0 with hlt | heq | hgt
    · exact .inr (.inl (h.flip _ _ ha hb hlt))
    · have hversion := Version.compare_eq_zero_iff.mp heq
      rcases lt_or_eq_of_le (not_lt.mp (hab.2 heq)) with hweights | hweights
      · refine .inr (.inr ⟨?_, hweights⟩)
        rw [hversion, Version.compare_eq_zero_iff]
      · exact .inl (Prod.ext hversion.symm hweights.symm)
    · exact absurd hgt hab.1
  trans a b c ha hb hc hab hbc := by
    rcases hab with hab | ⟨hab, hweights⟩
    · rcases hbc with hbc | ⟨hbc, -⟩
      · exact .inl (h.trans _ _ _ ha hb hc hab hbc)
      · rw [Version.compare_eq_zero_iff] at hbc
        rw [hbc] at hab
        exact .inl hab
    · rw [Version.compare_eq_zero_iff] at hab
      rcases hbc with hbc | ⟨hbc, hweights'⟩
      · rw [← hab] at hbc
        exact .inl hbc
      · rw [← hab] at hbc
        exact .inr ⟨hbc, hweights'.trans hweights⟩

/-- If all numbers of the versions are below `2 ^ 31`, it is enough that some
candidate beats the version `0.0.0` with no weights. -/
theorem selects_iff_of_small {host : ManifestHost} {buckets : List Bucket}
    {pkgName : WString}
    (h : ∀ c ∈ candidates host buckets pkgName,
      (Version.ofText c.version).Small) :
    Selects host buckets pkgName ↔
      NoThrow host buckets pkgName ∧
        ∃ c ∈ candidates host buckets pkgName, Beats c.rank bottomRank := by
  have hbottom : bottomRank.1.Small := by
    simp [Version.Small, bottomRank, Version.numbers, Prerelease.value]
  rw [selects_iff_champion]
  refine and_congr_right fun _ => ?_
  exact exists_champion_greatest_iff
    (strictTotalOn_beats Version.totalOn_small) beats_asymm hbottom h

/-! ### A package before its first release -/

/-- A Scoop manifest with a version. -/
def manifestOf (version : WString) : Json :=
  let jv := Json.null.setMember (narrow "url")
    (.string (narrow "https://a/a.zip"))
  jv.setMember (narrow "version") (.string (encodeUtf8 version))

def manifestHost (version : WString) : ManifestHost where
  parseJsonFile _ := .ok (manifestOf version)
  appBuckets := wide "C:\\buckets"

def scoopBucket : Bucket where
  name := wide "extras"
  weights := 100
  variant := .scoop

/-- The only candidate has a version below `0.0.0`, and an empty package is
returned in its place. -/
theorem packageMetaEx_beta :
    (candidates (manifestHost (wide "0.0.0-beta")) [scoopBucket]
        (wide "a")).length = 1 ∧
      packageMetaEx (manifestHost (wide "0.0.0-beta")) [scoopBucket]
        (wide "a") = .ok (.ok {}) ∧
      ¬ Selects (manifestHost (wide "0.0.0-beta")) [scoopBucket]
        (wide "a") := by
  have hempty : packageMetaEx (manifestHost (wide "0.0.0-beta")) [scoopBucket]
      (wide "a") = .ok (.ok {}) := rfl
  refine ⟨rfl, hempty, ?_⟩
  rintro ⟨⟨pkg, hpkg, hselected⟩, -⟩
  rw [hempty] at hpkg
  cases hpkg
  have hmem := List.mem_of_find?_eq_some (selected_iff.mp hselected)
  exact ne_default_of_mem hmem rfl

end Baulk.Pkg
