import Baulk.Pkg.Hash
import Baulk.Pkg.Package

/-!
# Installing a package

`Install` decides whether a package needs to be installed, fetches its archive
(from the cache or over the network, with up to four attempts) and hands the
archive to `Expand`.  Everything the function asks of the outside world is an
outcome here, so that one definition covers every cached state and every
sequence of downloads and hash checks.

The verdict of the last hash check is carried only by how the retry loop is
left.  The main result says exactly when this loses a mismatch.
-/

namespace Baulk.Pkg

/-- An archive on disk: where it is, and what hashing it reports. -/
structure ArchiveFile where
  path : WinPath
  fileHash : FileHash

/-- Every answer `Install` can get from its environment. -/
structure InstallOutcomes where
  /-- `PackageLocalMeta(pkg.name)`. -/
  packageLocalMeta : Option Package
  /-- Comparison of two `bela::version` values. -/
  compareVersion : WString → WString → Ordering
  isFrozenedPackage : WString → Bool
  isForceMode : Bool
  newLinks : Bool
  /-- `BestUrl` for the locale of the user. -/
  bestUrl : List WString → WString
  /-- `vfs::AppTemp()`. -/
  downloads : WinPath
  /-- The file at `downloads / filename`, if there is one. -/
  cached : Option FileHash
  makeDirectories : Bool
  /-- The four calls of `WinGet`. -/
  winGet : Fin 4 → Option ArchiveFile
  expand : WinPath → Bool

/-- The calls of `Install` that matter for the integrity of the archive. -/
inductive InstallEvent where
  | winGet (result : Option WinPath)
  | hashEqual (file : WinPath) (hash : WString) (equal : Bool)
  | expand (file : WinPath)

/-- Result and calls of one run of `Install`. -/
structure InstallRun where
  result : Bool
  trace : List InstallEvent

/-- `bela::SplitPath`. -/
def splitPath (s : WString) : List WString :=
  (Support.descend dotName dotdotName []
    (Support.components isPathSeparator s)).getD []

/-- `net::url_path_name`. -/
def urlPathName (url : WString) : WString :=
  (splitPath url).getLastD (wide "index.html")

/-- What the head of `Install` concludes from the installed version: a final
result, or to go on and fetch the archive. -/
def installedResult (o : InstallOutcomes) (pkg : Package) : Option Bool :=
  match o.packageLocalMeta with
  | none => none
  | some pkgLocal =>
      let order := o.compareVersion pkg.version pkgLocal.version
      if order = .lt ∨ (order = .eq ∧ pkg.weights ≤ pkgLocal.weights) then
        if pkgLocal.compatibilityMode then some true else some o.newLinks
      else if o.isFrozenedPackage pkg.name && !o.isForceMode then some true
      else none

/-- `PackageCached`, with its call of `HashEqual`. -/
def packageCached (o : InstallOutcomes) (filename hash : WString) :
    Option WinPath × List InstallEvent :=
  let file := o.downloads.append (WinPath.ofText filename)
  match o.cached with
  | none => (none, [])
  | some fileHash =>
      if hashMatches fileHash hash then (some file, [.hashEqual file hash true])
      else (none, [.hashEqual file hash false])

/-- The retry loop over the remaining attempts.  The second argument is the
variable `archive_file`, which keeps its value when the loop runs out. -/
def downloadLoop (hash : WString) :
    List (Option ArchiveFile) → Option ArchiveFile →
      Option ArchiveFile × List InstallEvent
  | [], archiveFile => (archiveFile, [])
  | none :: attempts, _ =>
      let r := downloadLoop hash attempts none
      (r.1, .winGet none :: r.2)
  | some file :: attempts, _ =>
      if hash.isEmpty then (some file, [.winGet (some file.path)])
      else if hashMatches file.fileHash hash then
        (some file, [.winGet (some file.path), .hashEqual file.path hash true])
      else
        let r := downloadLoop hash attempts (some file)
        (r.1, .winGet (some file.path) :: .hashEqual file.path hash false :: r.2)

/-- The part of `Install` from the download on. -/
def downloadAndExpand (o : InstallOutcomes) (pkg : Package) : InstallRun :=
  if o.makeDirectories then
    let r := downloadLoop pkg.hash (List.ofFn o.winGet) none
    match r.1 with
    | none => ⟨false, r.2⟩
    | some file => ⟨o.expand file.path, r.2 ++ [.expand file.path]⟩
  else ⟨false, []⟩

def install (o : InstallOutcomes) (pkg : Package) : InstallRun :=
  match installedResult o pkg with
  | some result => ⟨result, []⟩
  | none =>
      let url := o.bestUrl pkg.urls
      if url.isEmpty then ⟨false, []⟩
      else if pkg.hash.isEmpty then downloadAndExpand o pkg
      else
        match packageCached o (urlPathName url) pkg.hash with
        | (some file, events) => ⟨o.expand file, events ++ [.expand file]⟩
        | (none, events) =>
            let r := downloadAndExpand o pkg
            ⟨r.result, events ++ r.trace⟩

/-! ## The contract -/

/-- Every `Expand` in the trace is on the file of the last `HashEqual` before
it, and that call was for `hash` and returned true. -/
def ExpandsVerified (hash : WString) :
    Option (WinPath × WString × Bool) → List InstallEvent → Prop
  | _, [] => True
  | last, .winGet _ :: trace => ExpandsVerified hash last trace
  | _, .hashEqual file h equal :: trace =>
      ExpandsVerified hash (some (file, h, equal)) trace
  | last, .expand file :: trace =>
      last = some (file, hash, true) ∧ ExpandsVerified hash last trace

/-- The integrity contract of `Install`: archives are expanded only after a
matching check, and a run that has to fetch the archive and sees no check
succeed ends with `false` and expands nothing. -/
def InstallContract (o : InstallOutcomes) (pkg : Package) (r : InstallRun) :
    Prop :=
  ExpandsVerified pkg.hash none r.trace ∧
    (installedResult o pkg = none →
      (∀ file h, .hashEqual file h true ∉ r.trace) →
        r.result = false ∧ ∀ file, .expand file ∉ r.trace)

/-- `Install` goes to the network: the package is not installed in a good
enough version, has a url and no valid cached archive, and the download folder
could be made. -/
def ReachesDownload (o : InstallOutcomes) (pkg : Package) : Prop :=
  installedResult o pkg = none ∧ o.bestUrl pkg.urls ≠ [] ∧
    (∀ fileHash, o.cached = some fileHash →
      hashMatches fileHash pkg.hash = false) ∧
    o.makeDirectories = true

/-- No attempt yields a matching file, but the last one does yield a file. -/
def LastDownloadMismatches (o : InstallOutcomes) (pkg : Package) : Prop :=
  (∀ i file, o.winGet i = some file →
      hashMatches file.fileHash pkg.hash = false) ∧
    (o.winGet 3).isSome = true

/-! ## The retry loop -/

/-- The last hash check of a trace, starting from an earlier one. -/
def lastCheck : Option (WinPath × WString × Bool) → List InstallEvent →
    Option (WinPath × WString × Bool)
  | last, [] => last
  | _, .hashEqual file h equal :: trace =>
      lastCheck (some (file, h, equal)) trace
  | last, .winGet _ :: trace => lastCheck last trace
  | last, .expand _ :: trace => lastCheck last trace

theorem expandsVerified_append {hash : WString}
    {last : Option (WinPath × WString × Bool)} {xs ys : List InstallEvent} :
    ExpandsVerified hash last (xs ++ ys) ↔
      ExpandsVerified hash last xs ∧
        ExpandsVerified hash (lastCheck last xs) ys := by
  induction xs generalizing last with
  | nil => simp [ExpandsVerified, lastCheck]
  | cons x xs ih =>
      cases x with
      | winGet result => simp [ExpandsVerified, lastCheck, ih]
      | hashEqual file h equal => simp [ExpandsVerified, lastCheck, ih]
      | expand file => simp [ExpandsVerified, lastCheck, ih, and_assoc]

theorem downloadLoop_no_expand (hash : WString)
    (attempts : List (Option ArchiveFile)) (archiveFile : Option ArchiveFile)
    (file : WinPath) :
    .expand file ∉ (downloadLoop hash attempts archiveFile).2 := by
  induction attempts generalizing archiveFile with
  | nil => simp [downloadLoop]
  | cons attempt attempts ih =>
      cases attempt with
      | none => simp [downloadLoop, ih]
      | some f =>
          simp only [downloadLoop]
          split
          · simp
          · split
            · simp
            · simp [ih]

/-- If some attempt matches, the loop ends with a file whose check was the
last one and succeeded. -/
theorem downloadLoop_of_match {hash : WString} (hhash : hash ≠ [])
    {attempts : List (Option ArchiveFile)}
    (hmatch : ∃ file, some file ∈ attempts ∧
      hashMatches file.fileHash hash = true)
    (archiveFile : Option ArchiveFile)
    (last : Option (WinPath × WString × Bool)) :
    ∃ file, (downloadLoop hash attempts archiveFile).1 = some file ∧
      lastCheck last (downloadLoop hash attempts archiveFile).2 =
        some (file.path, hash, true) ∧
      .hashEqual file.path hash true ∈
        (downloadLoop hash attempts archiveFile).2 := by
  induction attempts generalizing archiveFile last with
  | nil =>
      obtain ⟨file, hmem, -⟩ := hmatch
      simp at hmem
  | cons attempt attempts ih =>
      cases attempt with
      | none =>
          have htail : ∃ file, some file ∈ attempts ∧
              hashMatches file.fileHash hash = true := by
            simpa using hmatch
          obtain ⟨file, hfile, hlast, hmem⟩ := ih htail none last
          exact ⟨file, hfile, hlast, List.mem_cons_of_mem _ hmem⟩
      | some f =>
          by_cases hf : hashMatches f.fileHash hash = true
          · refine ⟨f, ?_, ?_, ?_⟩ <;>
              simp [downloadLoop, hhash, hf, lastCheck]
          · have htail : ∃ file, some file ∈ attempts ∧
                hashMatches file.fileHash hash = true := by
              obtain ⟨file, hmem, hfile⟩ := hmatch
              rw [List.mem_cons] at hmem
              rcases hmem with heq | hmem
              · rw [Option.some.injEq] at heq
                exact absurd (heq ▸ hfile) hf
              · exact ⟨file, hmem, hfile⟩
            obtain ⟨file, hfile, hlast, hmem⟩ := ih htail (some f)
              (some (f.path, hash, false))
            refine ⟨file, ?_, ?_, ?_⟩ <;>
              simp [downloadLoop, hhash, hf, lastCheck, hfile, hlast, hmem]

/-- If no attempt matches, no check in the loop succeeds, and what is left in
`archive_file` is whatever the last attempt returned. -/
theorem downloadLoop_of_no_match {hash : WString} (hhash : hash ≠ [])
    {attempts : List (Option ArchiveFile)}
    (hno : ∀ file, some file ∈ attempts →
      hashMatches file.fileHash hash = false)
    (archiveFile : Option ArchiveFile) :
    (downloadLoop hash attempts archiveFile).1 =
        attempts.getLastD archiveFile ∧
      ∀ file h, .hashEqual file h true ∉
        (downloadLoop hash attempts archiveFile).2 := by
  induction attempts generalizing archiveFile with
  | nil => simp [downloadLoop]
  | cons attempt attempts ih =>
      have htail : ∀ file, some file ∈ attempts →
          hashMatches file.fileHash hash = false :=
        fun file hmem => hno file (List.mem_cons_of_mem _ hmem)
      cases attempt with
      | none =>
          obtain ⟨hlast, hchecks⟩ := ih htail none
          refine ⟨?_, ?_⟩
          · rw [List.getLastD_cons]
            exact hlast
          · simp [downloadLoop, hchecks]
      | some f =>
          have hf : hashMatches f.fileHash hash = false := hno f (by simp)
          obtain ⟨hlast, hchecks⟩ := ih htail (some f)
          refine ⟨?_, ?_⟩
          · rw [List.getLastD_cons]
            simpa [downloadLoop, hhash, hf] using hlast
          · simp [downloadLoop, hhash, hf, hchecks]

/-! ## The whole function -/

theorem expandsVerified_of_no_expand {hash : WString}
    {trace : List InstallEvent} (h : ∀ file, .expand file ∉ trace)
    (last : Option (WinPath × WString × Bool)) :
    ExpandsVerified hash last trace := by
  induction trace generalizing last with
  | nil => trivial
  | cons event trace ih =>
      have htail : ∀ file, .expand file ∉ trace :=
        fun file hmem => h file (List.mem_cons_of_mem _ hmem)
      cases event with
      | winGet result => exact ih htail last
      | hashEqual file hv equal => exact ih htail _
      | expand file => exact absurd (List.mem_cons_self ..) (h file)

/-- The network part of `Install`, after a cache check that found nothing
valid, keeps the contract unless the last download mismatches. -/
theorem downloadAndExpand_contract_iff (o : InstallOutcomes) (pkg : Package)
    (hhash : pkg.hash ≠ []) (hinst : installedResult o pkg = none)
    (hdirs : o.makeDirectories = true)
    {cacheEvents : List InstallEvent}
    (hcache : ∀ event ∈ cacheEvents, ∃ file h,
      event = .hashEqual file h false) :
    InstallContract o pkg ⟨(downloadAndExpand o pkg).result,
        cacheEvents ++ (downloadAndExpand o pkg).trace⟩ ↔
      ¬LastDownloadMismatches o pkg := by
  have hnoExpand : ∀ file, .expand file ∉ cacheEvents := by
    intro file hmem
    obtain ⟨_, _, h⟩ := hcache _ hmem
    contradiction
  have hnoTrue : ∀ file h, .hashEqual file h true ∉ cacheEvents := by
    intro file h hmem
    obtain ⟨_, _, heq⟩ := hcache _ hmem
    simp at heq
  have hloopExpand :=
    downloadLoop_no_expand pkg.hash (List.ofFn o.winGet) none
  by_cases hmatch : ∃ file, some file ∈ List.ofFn o.winGet ∧
      hashMatches file.fileHash pkg.hash = true
  · -- Some attempt matches: the loop stops there and the file is expanded.
    obtain ⟨file, hfile, hlast, hmem⟩ := downloadLoop_of_match hhash hmatch
      none (lastCheck none cacheEvents)
    have hrun : downloadAndExpand o pkg = ⟨o.expand file.path,
        (downloadLoop pkg.hash (List.ofFn o.winGet) none).2 ++
          [.expand file.path]⟩ := by
      simp only [downloadAndExpand, hdirs, if_true, hfile]
    rw [hrun]
    refine iff_of_true ⟨?_, ?_⟩ ?_
    · rw [expandsVerified_append, expandsVerified_append, hlast]
      exact ⟨expandsVerified_of_no_expand hnoExpand _,
        expandsVerified_of_no_expand hloopExpand _, rfl, trivial⟩
    · intro _ hnone
      exact absurd (List.mem_append_right _ (List.mem_append_left _ hmem))
        (hnone file.path pkg.hash)
    · rintro ⟨hall, -⟩
      obtain ⟨f, hf, hfm⟩ := hmatch
      obtain ⟨i, hi⟩ := List.mem_ofFn.mp hf
      rw [hall i f hi] at hfm
      contradiction
  · -- No attempt matches: what the last one returned decides.
    have hno : ∀ file, some file ∈ List.ofFn o.winGet →
        hashMatches file.fileHash pkg.hash = false := by
      intro file hmem
      by_contra h
      exact hmatch ⟨file, hmem, by simpa using h⟩
    obtain ⟨hlast, hchecks⟩ := downloadLoop_of_no_match hhash hno none
    have hlast' : (downloadLoop pkg.hash (List.ofFn o.winGet) none).1 =
        o.winGet 3 := by
      rw [hlast]
      rfl
    have hall : ∀ i file, o.winGet i = some file →
        hashMatches file.fileHash pkg.hash = false :=
      fun i file hi => hno file (List.mem_ofFn.mpr ⟨i, hi⟩)
    cases hthree : o.winGet 3 with
    | none =>
        have hrun : downloadAndExpand o pkg = ⟨false,
            (downloadLoop pkg.hash (List.ofFn o.winGet) none).2⟩ := by
          simp only [downloadAndExpand, hdirs, if_true, hlast', hthree]
        rw [hrun]
        have hexpand : ∀ file, .expand file ∉ cacheEvents ++
            (downloadLoop pkg.hash (List.ofFn o.winGet) none).2 := by
          intro file hmem
          rcases List.mem_append.mp hmem with hmem | hmem
          · exact hnoExpand file hmem
          · exact hloopExpand file hmem
        refine iff_of_true ⟨expandsVerified_of_no_expand hexpand _, ?_⟩ ?_
        · intro _ _
          exact ⟨rfl, hexpand⟩
        · simp [LastDownloadMismatches, hthree]
    | some file =>
        have hrun : downloadAndExpand o pkg = ⟨o.expand file.path,
            (downloadLoop pkg.hash (List.ofFn o.winGet) none).2 ++
              [.expand file.path]⟩ := by
          simp only [downloadAndExpand, hdirs, if_true, hlast', hthree]
        rw [hrun]
        refine iff_of_false ?_ ?_
        · rintro ⟨-, hfinal⟩
          have hnever : ∀ f h, .hashEqual f h true ∉ cacheEvents ++
              ((downloadLoop pkg.hash (List.ofFn o.winGet) none).2 ++
                [.expand file.path]) := by
            intro f h hmem
            rcases List.mem_append.mp hmem with hmem | hmem
            · exact hnoTrue f h hmem
            · rcases List.mem_append.mp hmem with hmem | hmem
              · exact hchecks f h hmem
              · simp at hmem
          exact (hfinal hinst hnever).2 file.path (by simp)
        · rw [not_not]
          exact ⟨hall, by simp [hthree]⟩

/-- `Install` of a package with a hash keeps the integrity contract exactly
when it does not reach the network with four attempts of which none matches
and the last yields a file. -/
theorem install_contract_iff (o : InstallOutcomes) (pkg : Package)
    (hhash : pkg.hash ≠ []) :
    InstallContract o pkg (install o pkg) ↔
      ¬(ReachesDownload o pkg ∧ LastDownloadMismatches o pkg) := by
  cases hinst : installedResult o pkg with
  | some result =>
      refine iff_of_true ⟨?_, by simp [hinst]⟩ ?_
      · simp [install, hinst, ExpandsVerified]
      · simp [ReachesDownload, hinst]
  | none =>
      by_cases hurl : o.bestUrl pkg.urls = []
      · refine iff_of_true ⟨?_, ?_⟩ ?_
        · simp [install, hinst, hurl, ExpandsVerified]
        · simp [install, hinst, hurl]
        · simp [ReachesDownload, hurl]
      · have hdownload : ∀ cacheEvents : List InstallEvent,
            (∀ event ∈ cacheEvents, ∃ file h,
              event = .hashEqual file h false) →
            (InstallContract o pkg ⟨(downloadAndExpand o pkg).result,
                cacheEvents ++ (downloadAndExpand o pkg).trace⟩ ↔
              ¬(o.makeDirectories = true ∧ LastDownloadMismatches o pkg)) := by
          intro cacheEvents hcache
          by_cases hdirs : o.makeDirectories = true
          · rw [downloadAndExpand_contract_iff o pkg hhash hinst hdirs hcache]
            simp [hdirs]
          · have hnoExpand : ∀ file, .expand file ∉ cacheEvents := by
              intro file hmem
              obtain ⟨_, _, h⟩ := hcache _ hmem
              contradiction
            refine iff_of_true ⟨?_, ?_⟩ (by simp [hdirs])
            · simpa [downloadAndExpand, hdirs] using
                expandsVerified_of_no_expand hnoExpand none
            · simp [downloadAndExpand, hdirs, hnoExpand]
        cases hcached : o.cached with
        | none =>
            have := hdownload [] (by simp)
            simpa [install, hinst, hurl, hhash, packageCached, hcached,
              ReachesDownload] using this
        | some fileHash =>
            cases hvalid : hashMatches fileHash pkg.hash with
            | true =>
                refine iff_of_true ⟨?_, ?_⟩ ?_
                · simp [install, hinst, hurl, hhash, packageCached, hcached,
                    hvalid, ExpandsVerified]
                · simp [install, hinst, hurl, hhash, packageCached, hcached,
                    hvalid]
                · rintro ⟨⟨-, -, hstale, -⟩, -⟩
                  rw [hstale fileHash hcached] at hvalid
                  contradiction
            | false =>
                have := hdownload [.hashEqual (o.downloads.append
                  (WinPath.ofText (urlPathName (o.bestUrl pkg.urls))))
                  pkg.hash false] (by simp)
                simpa [install, hinst, hurl, hhash, packageCached, hcached,
                  hvalid, ReachesDownload] using this

/-! ## Four mismatching downloads -/

/-- A fresh machine on which every download yields the same file, whose
digest is `00`. -/
def mismatchingOutcomes : InstallOutcomes where
  packageLocalMeta := none
  compareVersion := fun _ _ => .eq
  isFrozenedPackage := fun _ => false
  isForceMode := false
  newLinks := true
  bestUrl := fun urls => urls.headD []
  downloads := WinPath.ofText (wide "C:\\temp")
  cached := none
  makeDirectories := true
  winGet := fun _ => some
    ⟨WinPath.ofText (wide "C:\\temp\\a.zip"), fun _ => .ok (wide "00")⟩
  expand := fun _ => true

/-- A package that expects the digest `hash`. -/
def packageExpecting (hash : WString) : Package where
  name := wide "a"
  urls := [wide "https://example.com/a.zip"]
  hash := hash

/-- The archive of the fourth download is expanded although its digest is not
the expected one, and `Install` succeeds. -/
theorem install_expands_mismatching_download :
    (packageExpecting (wide "ff")).hash ≠ [] ∧
      (install mismatchingOutcomes (packageExpecting (wide "ff"))).result =
        true ∧
      ¬InstallContract mismatchingOutcomes (packageExpecting (wide "ff"))
        (install mismatchingOutcomes (packageExpecting (wide "ff"))) := by
  refine ⟨by decide, by decide, ?_⟩
  rintro ⟨-, hfinal⟩
  have hchecks : ∀ file h, .hashEqual file h true ∉ (install
      mismatchingOutcomes (packageExpecting (wide "ff"))).trace := by
    have hmismatch :
        hashMatches (fun _ => .ok (wide "00")) (wide "ff") = false := by decide
    have hhash : wide "ff" ≠ [] := by decide
    have hurl : wide "https://example.com/a.zip" ≠ [] := by decide
    simp [install, installedResult, mismatchingOutcomes, packageExpecting,
      packageCached, downloadAndExpand, downloadLoop, hmismatch, hhash, hurl]
  have hresult := (hfinal rfl hchecks).1
  revert hresult
  decide

/-- With the right digest the same downloads meet the contract. -/
theorem install_contract_of_first_match :
    InstallContract mismatchingOutcomes (packageExpecting (wide "00"))
      (install mismatchingOutcomes (packageExpecting (wide "00"))) := by
  refine (install_contract_iff mismatchingOutcomes
    (packageExpecting (wide "00")) (by decide)).mpr ?_
  rintro ⟨-, hall, -⟩
  have hfirst := hall 0 _ rfl
  revert hfirst
  decide

end Baulk.Pkg
