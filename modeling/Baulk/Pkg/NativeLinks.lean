import Baulk.Pkg.Metadata

/-!
# The links of a native manifest

A manifest may list links for the whole package and for one of its architectures.
`resolveNativeURL` takes the address and the hash from the first architecture of its
preference that the manifest has.  The links that it reads there are those of the whole
package, and so are the ones that it falls back on.
-/

namespace Baulk.Pkg

/-- The architectures in the order in which they are tried. -/
def preferences (host : ManifestHost) : List Bytes :=
  host.architecture :: ((if host.arm64 then [narrow "64bit"] else []) ++ [narrow "32bit"])

def firstArchitecture (host : ManifestHost) (jv : Json) : Option Json :=
  (jv.subview (narrow "architecture")).bind fun sv => (preferences host).findSome? sv.subview

/-- The links are those that the architecture lists, or the ones of the whole package if it
lists none. -/
def Listed (jv av : Json) (name : Bytes) (links : List LinkMeta) : Prop :=
  ∃ inner, linkMetas av name = .ok inner ∧
    if inner = [] then linkMetas jv name = .ok links else links = inner

/-- What is expected of the package of a manifest. -/
def FromArchitecture (host : ManifestHost) (jv : Json) (pkg : Package) : Prop :=
  ∃ av, firstArchitecture host jv = some av ∧
    pkg.urls = [av.get (narrow "url")] ∧ pkg.hash = av.get (narrow "hash") ∧
    Listed jv av (narrow "links") pkg.links ∧ Listed jv av (narrow "launchers") pkg.launchers

/-- The architecture lists nothing, or what the whole package lists. -/
def SameLinks (jv av : Json) (name : Bytes) : Prop :=
  linkMetas av name = .ok [] ∨ linkMetas av name = linkMetas jv name

theorem listed_iff {jv av : Json} {name : Bytes} {links : List LinkMeta}
    (h : linkMetas jv name = .ok links) : Listed jv av name links ↔ SameLinks jv av name := by
  constructor
  · rintro ⟨inner, hinner, hlinks⟩
    by_cases hnone : inner = []
    · exact .inl (hnone ▸ hinner)
    · rw [if_neg hnone] at hlinks
      exact .inr (by rw [hinner, h, hlinks])
  · rintro (hnone | hsame)
    · exact ⟨[], hnone, by rwa [if_pos rfl]⟩
    · refine ⟨links, hsame.trans h, ?_⟩
      split
      · exact h
      · rfl

/-! ## What is read -/

/-- The address, the hash and the links that one architecture gives. -/
structure TakenFrom (jv av : Json) (pkg pkg' : Package) : Prop where
  urls : pkg'.urls = pkg.urls ++ [av.get (narrow "url")]
  hash : pkg'.hash = av.get (narrow "hash")
  links : ∃ links, linkMetas jv (narrow "links") = .ok links ∧
    pkg'.links = pkg.links ++ links
  launchers : ∃ launchers, linkMetas jv (narrow "launchers") = .ok launchers ∧
    pkg'.launchers = pkg.launchers ++ launchers

theorem archURL_cases {jv sv : Json} {arch : Bytes} {pkg : Package} {found : Option Package}
    (h : archURL jv sv arch pkg = .ok found) :
    sv.subview arch = none ∧ found = none ∨
      ∃ av pkg', sv.subview arch = some av ∧ found = some pkg' ∧ TakenFrom jv av pkg pkg' := by
  unfold archURL at h
  split at h
  · next hnone =>
    cases h
    exact .inl ⟨hnone, rfl⟩
  · next av hav =>
    obtain ⟨links, hlinks, h⟩ := bind_eq_ok_iff.mp h
    obtain ⟨launchers, hlaunchers, h⟩ := bind_eq_ok_iff.mp h
    cases h
    exact .inr ⟨av, _, hav, rfl, rfl, rfl, ⟨links, hlinks, rfl⟩, ⟨launchers, hlaunchers, rfl⟩⟩

theorem firstArchURL_cases {jv sv : Json} {archs : List Bytes} {pkg pkg' : Package}
    (h : firstArchURL jv sv pkg archs = .ok pkg') :
    archs.findSome? sv.subview = none ∧ pkg' = pkg ∨
      ∃ av, archs.findSome? sv.subview = some av ∧ TakenFrom jv av pkg pkg' := by
  induction archs with
  | nil =>
      cases h
      exact .inl ⟨rfl, rfl⟩
  | cons arch archs ih =>
      rw [firstArchURL] at h
      obtain ⟨found, hfound, h⟩ := bind_eq_ok_iff.mp h
      rcases archURL_cases hfound with ⟨hnone, rfl⟩ | ⟨av, taken, hav, rfl, htaken⟩
      · rw [List.findSome?_cons_of_isNone (Option.isNone_iff_eq_none.mpr hnone)]
        exact ih h
      · cases h
        exact .inr ⟨av, by rw [List.findSome?_cons, hav], htaken⟩

theorem nativeURL_cases {host : ManifestHost} {jv : Json} {pkg pkg' : Package}
    (h : nativeURL host jv pkg = .ok pkg') :
    firstArchitecture host jv = none ∧ pkg' = pkg ∨
      ∃ av, firstArchitecture host jv = some av ∧ TakenFrom jv av pkg pkg' := by
  unfold nativeURL at h
  unfold firstArchitecture
  split at h
  · next hnone =>
    cases h
    exact .inl ⟨by rw [hnone]; rfl, rfl⟩
  · next sv hsv =>
    rw [hsv]
    exact firstArchURL_cases h

/-- The links of a package without links before are those of the whole package. -/
theorem resolveNativeURL_cases {host : ManifestHost} {jv : Json} {pkg pkg' : Package}
    (hlinks : pkg.links = []) (hlaunchers : pkg.launchers = [])
    (h : resolveNativeURL host jv pkg = .ok pkg') :
    (firstArchitecture host jv = none ∧ pkg'.urls = pkg.urls ∨
      ∃ av, firstArchitecture host jv = some av ∧
        pkg'.urls = pkg.urls ++ [av.get (narrow "url")] ∧ pkg'.hash = av.get (narrow "hash")) ∧
    linkMetas jv (narrow "links") = .ok pkg'.links ∧
      linkMetas jv (narrow "launchers") = .ok pkg'.launchers := by
  unfold resolveNativeURL at h
  obtain ⟨found, hfound, h⟩ := bind_eq_ok_iff.mp h
  obtain ⟨links, hreadLinks, h⟩ := bind_eq_ok_iff.mp h
  obtain ⟨launchers, hreadLaunchers, h⟩ := bind_eq_ok_iff.mp h
  cases h
  dsimp only
  rw [hreadLinks, hreadLaunchers]
  rcases nativeURL_cases hfound with ⟨hnone, rfl⟩ | ⟨av, hav, htaken⟩
  · refine ⟨.inl ⟨hnone, rfl⟩, ?_, ?_⟩
    · rw [hlinks]
      rfl
    · rw [hlaunchers]
      rfl
  · refine ⟨.inr ⟨av, hav, htaken.urls, htaken.hash⟩, ?_, ?_⟩
    · obtain ⟨links', hlinks', heq⟩ := htaken.links
      rw [hreadLinks, Except.ok.injEq] at hlinks'
      rw [heq, hlinks, List.nil_append, ← hlinks', ite_self]
    · obtain ⟨launchers', hlaunchers', heq⟩ := htaken.launchers
      rw [hreadLaunchers, Except.ok.injEq] at hlaunchers'
      rw [heq, hlaunchers, List.nil_append, ← hlaunchers', ite_self]

/-- The package is as expected exactly if the architecture lists no links of its own. -/
theorem packageMetaNative_fromArchitecture_iff {host : ManifestHost} {bucket : Bucket}
    {pkgName : WString} {jv : Json} {pkg : Package}
    (hparse : host.parseJsonFile (packageMetaJoinNative host bucket pkgName) = .ok jv)
    (h : packageMetaNative host bucket pkgName = .ok (.ok pkg)) :
    FromArchitecture host jv pkg ↔
      ∀ av, firstArchitecture host jv = some av →
        SameLinks jv av (narrow "links") ∧ SameLinks jv av (narrow "launchers") := by
  unfold packageMetaNative at h
  dsimp only at h
  rw [hparse] at h
  dsimp only at h
  obtain ⟨suggest, -, h⟩ := bind_eq_ok_iff.mp h
  obtain ⟨forceDeletes, -, h⟩ := bind_eq_ok_iff.mp h
  obtain ⟨found, hfound, h⟩ := bind_eq_ok_iff.mp h
  obtain ⟨hcases, hlinks, hlaunchers⟩ := resolveNativeURL_cases rfl rfl hfound
  split at h
  · cases h
  next hurls =>
  obtain ⟨venv, -, h⟩ := bind_eq_ok_iff.mp h
  cases h
  rcases hcases with ⟨-, hnone⟩ | ⟨av, hav, hurl, hhash⟩
  · rw [hnone] at hurls
    exact absurd rfl hurls
  · constructor
    · rintro ⟨av', hav', -, -, hl, hl'⟩ av'' hav''
      rw [hav, Option.some.injEq] at hav' hav''
      subst hav' hav''
      exact ⟨(listed_iff hlinks).mp hl, (listed_iff hlaunchers).mp hl'⟩
    · intro hsame
      obtain ⟨hl, hl'⟩ := hsame av hav
      exact ⟨av, hav, hurl, hhash, (listed_iff hlinks).mpr hl, (listed_iff hlaunchers).mpr hl'⟩

/-! ### Links of one architecture -/

def linkedArchitecture (links : List Json) : Json :=
  (Json.null.setMember (narrow "url") (.string (narrow "https://a/a.zip"))).setMember
    (narrow "links") (.array links)

def linkedManifest (links : List Json) : Json :=
  Json.null.setMember (narrow "architecture")
    (Json.null.setMember (narrow "64bit") (linkedArchitecture links))

def linkedHost (links : List Json) : ManifestHost where
  parseJsonFile _ := .ok (linkedManifest links)
  appBuckets := wide "C:\\buckets"

theorem packageMetaNative_linkedHost (links : List Json) :
    ∃ pkg, packageMetaNative (linkedHost links) {} (wide "a") = .ok (.ok pkg) ∧
      pkg.links = [] :=
  ⟨_, rfl, rfl⟩

theorem packageMetaNative_fromArchitecture_unlinked :
    ∃ pkg, packageMetaNative (linkedHost []) {} (wide "a") = .ok (.ok pkg) ∧
      FromArchitecture (linkedHost []) (linkedManifest []) pkg := by
  obtain ⟨pkg, hpkg, -⟩ := packageMetaNative_linkedHost []
  have hparse : (linkedHost []).parseJsonFile
      (packageMetaJoinNative (linkedHost []) {} (wide "a")) = .ok (linkedManifest []) := rfl
  refine ⟨pkg, hpkg, (packageMetaNative_fromArchitecture_iff hparse hpkg).mpr ?_⟩
  intro av hav
  cases hav
  exact ⟨.inl rfl, .inl rfl⟩

/-- The links of the architecture are not read. -/
theorem packageMetaNative_linked :
    ∃ pkg, packageMetaNative (linkedHost [.string (narrow "bin/a.exe")]) {} (wide "a") =
        .ok (.ok pkg) ∧
      ¬ FromArchitecture (linkedHost [.string (narrow "bin/a.exe")])
        (linkedManifest [.string (narrow "bin/a.exe")]) pkg := by
  obtain ⟨pkg, hpkg, hlinks⟩ :=
    packageMetaNative_linkedHost [.string (narrow "bin/a.exe")]
  refine ⟨pkg, hpkg, ?_⟩
  rintro ⟨av, hav, -, -, ⟨inner, hinner, hlisted⟩, -⟩
  cases hav
  obtain rfl : inner = [LinkMeta.ofText (wide "bin\\a.exe")] := by
    cases hinner
    rfl
  rw [if_neg (List.cons_ne_nil _ _), hlinks] at hlisted
  cases hlisted

end Baulk.Pkg
