import Baulk.Core.Characters
import Baulk.Pkg.LinkStore

/-!
# Links over whole runs

The directory of links and its registry are two records of the same links.  They
refine one map from names to links: an installation drops the links of the
package and enters the new ones, and a removal drops them.  Where no operation of
the file system fails, both records agree with the map after every run, and a link
is what the last installation made under its name, unless its package was
installed again or removed since.
-/

namespace Baulk.Pkg

open Support (components)

/-! ## The map of links -/

/-- A link that is entered. -/
structure Registered where
  package : WString
  path : WString
  version : WString
  leadsTo : LinkTarget
  deriving DecidableEq

def Registered.text (r : Registered) : Bytes :=
  linkText { name := r.package, version := r.version } ⟨r.path, []⟩

/-- The name and the path of a link come back from its text. -/
def Registered.Plain (r : Registered) : Prop :=
  PlainPart r.package ∧ PlainPart r.path

abbrev Links := WString → Option Registered

/-- Enter links, the later ones in place of the earlier ones. -/
def Links.enter (links : Links) (made : List (WString × Registered)) : Links :=
  made.foldl (fun links e => Function.update links e.1 (some e.2)) links

def Links.drop (links : Links) (pkgName : WString) : Links :=
  fun a => (links a).filter fun r => r.package ≠ pkgName

def noLinks : Links :=
  fun _ => none

namespace LinkEnv

variable (env : LinkEnv)

/-- The links of a list that can be reached, as symbolic links. -/
def reachedSymlinks (leads : WString → WString) (pkg : Package) (lms : List LinkMeta) :
    List (WString × Registered) :=
  lms.filterMap fun lm =>
    (env.reachable pkg lm).1.map fun source =>
      (lm.aliasName, ⟨pkg.name, (env.reachable pkg lm).2, pkg.version, .symlink (leads source)⟩)

/-- The links of a list that are made. -/
def madeSymlinks (leads : WString → WString) (pkg : Package) (lms : List LinkMeta) :
    List (WString × Registered) :=
  if env.directoriesError.isSome then [] else env.reachedSymlinks leads pkg lms

/-- The launchers of a list that can be reached and compiled. -/
def compiledPrograms (pkg : Package) (lms : List LinkMeta) : List (WString × Registered) :=
  lms.filterMap fun lm =>
    if (env.compileError lm).isSome then none
    else (env.reachable pkg lm).1.map fun source =>
      (lm.aliasName, ⟨pkg.name, lm.path, pkg.version, .program source⟩)

/-- The launchers that are compiled. -/
def madePrograms (pkg : Package) : List (WString × Registered) :=
  if env.directoriesError.isSome || env.builderError.isSome then []
  else env.compiledPrograms pkg pkg.launchers

def madeLaunchers (pkg : Package) : List (WString × Registered) :=
  if env.initialized then env.madePrograms pkg
  else
    match env.proxyLauncher with
    | .error _ => []
    | .ok proxyLauncher => env.madeSymlinks (fun _ => proxyLauncher) pkg pkg.launchers

end LinkEnv

/-- What a change makes. -/
def LinkStep.made (step : LinkStep) : List (WString × Registered) :=
  match step.change with
  | .install pkg =>
      step.env.madeSymlinks id pkg pkg.links ++ step.env.madeLaunchers pkg
  | .remove _ => []

/-- A change of the map. -/
def LinkStep.apply (step : LinkStep) (links : Links) : Links :=
  (links.drop step.change.package).enter step.made

/-- The map after some changes. -/
def applySteps (steps : List LinkStep) (links : Links) : Links :=
  steps.foldl (fun links step => step.apply links) links

/-! ### Who made a link -/

theorem enter_cons (links : Links) (e : WString × Registered) (made : List (WString × Registered)) :
    links.enter (e :: made) = Links.enter (Function.update links e.1 (some e.2)) made := rfl

theorem enter_append (links : Links) (made made' : List (WString × Registered)) :
    links.enter (made ++ made') = (links.enter made).enter made' :=
  List.foldl_append

theorem drop_apply_eq_some_iff {links : Links} {pkgName a : WString} {r : Registered} :
    links.drop pkgName a = some r ↔ links a = some r ∧ r.package ≠ pkgName := by
  rw [Links.drop, Option.filter_eq_some_iff]
  simp

/-- The links in the registry; there are none if it has no list of them. -/
def LinkFile.linkObject : LinkFile → Json
  | .parsed obj => (obj.find linksKey).getD .null
  | _ => .null

/-- Where links are made: what paths mean, and the names that are in play.  They come back from the
registry, no two of them mean the same file, and none means the registry. -/
structure LinkSetting where
  appLinks : WString
  appPackages : WString
  file : WString → WString
  inPlay : WString → Prop
  paired : ∀ a, inPlay a → Paired a
  apart : ∀ a b, inPlay a → inPlay b →
    file (appLinks ++ wide "\\" ++ a) = file (appLinks ++ wide "\\" ++ b) → a = b
  apartRegistry : ∀ a, inPlay a →
    file (appLinks ++ wide "\\" ++ a) ≠ file (appLinks ++ wide "\\baulk.linkmeta.json")
  packagesPaired : Paired appPackages

namespace LinkSetting

variable (S : LinkSetting)

/-- The file that is meant by the name of a link. -/
def fileOf (a : WString) : WString :=
  S.file (S.appLinks ++ wide "\\" ++ a)

/-- The map holds names in play and links that come back. -/
def Holds (links : Links) : Prop :=
  ∀ a r, links a = some r → S.inPlay a ∧ r.Plain

theorem encodeUtf8_inj {a b : WString} (ha : S.inPlay a) (hb : S.inPlay b)
    (h : encodeUtf8 a = encodeUtf8 b) : a = b := by
  rw [← (S.paired a ha).decode, h, (S.paired b hb).decode]

end LinkSetting

/-- The texts of a map stand under the names of its links. -/
def Finds (json : Json) (links : Links) : Prop :=
  ∀ key v, json.find key = some v ↔
    ∃ a r, links a = some r ∧ key = encodeUtf8 a ∧ v = .string r.text

theorem finds_null : Finds .null noLinks := by
  intro key v
  refine iff_of_false (by simp [Json.find]) ?_
  rintro ⟨a, r, h, -⟩
  cases h

variable {S : LinkSetting}

theorem Finds.setMember {json : Json} {links : Links} (hmap : json.IsMap) (h : Finds json links)
    (hholds : S.Holds links) {a : WString} (ha : S.inPlay a) (r : Registered) :
    Finds (json.setMember (encodeUtf8 a) (.string r.text))
      (Function.update links a (some r)) := by
  intro key v
  rw [hmap.find_setMember]
  by_cases hkey : key = encodeUtf8 a
  · rw [if_pos hkey, Option.some.injEq]
    constructor
    · rintro rfl
      exact ⟨a, r, Function.update_self .., hkey, rfl⟩
    · rintro ⟨b, r', hb, hkey', rfl⟩
      by_cases hba : b = a
      · subst hba
        rw [Function.update_self, Option.some.injEq] at hb
        rw [hb]
      · rw [Function.update_of_ne hba] at hb
        exact absurd (S.encodeUtf8_inj (hholds b r' hb).1 ha (hkey'.symm.trans hkey)) hba
  · rw [if_neg hkey, h key v]
    constructor
    · rintro ⟨b, r', hb, hkey', hv⟩
      have hba : b ≠ a := by
        rintro rfl
        exact hkey hkey'
      exact ⟨b, r', by rwa [Function.update_of_ne hba], hkey', hv⟩
    · rintro ⟨b, r', hb, hkey', hv⟩
      have hba : b ≠ a := by
        rintro rfl
        exact hkey hkey'
      rw [Function.update_of_ne hba] at hb
      exact ⟨b, r', hb, hkey', hv⟩

/-- Names in play and links that come back. -/
def LinkSetting.Admits (S : LinkSetting) (made : List (WString × Registered)) : Prop :=
  ∀ e ∈ made, S.inPlay e.1 ∧ e.2.Plain

theorem LinkSetting.Holds.enter {links : Links} (h : S.Holds links)
    {made : List (WString × Registered)} (hmade : S.Admits made) : S.Holds (links.enter made) := by
  induction made generalizing links with
  | nil => exact h
  | cons e made ih =>
      rw [enter_cons]
      refine ih ?_ fun e' he' => hmade e' (List.mem_cons_of_mem _ he')
      intro a r hr
      by_cases ha : a = e.1
      · subst ha
        rw [Function.update_self, Option.some.injEq] at hr
        rw [← hr]
        exact hmade e List.mem_cons_self
      · rw [Function.update_of_ne ha] at hr
        exact h a r hr

theorem LinkSetting.Holds.enter_singleton {links : Links} (h : S.Holds links)
    {e : WString × Registered} (he : S.inPlay e.1 ∧ e.2.Plain) : S.Holds (links.enter [e]) := by
  apply h.enter
  intro e' he'
  rwa [List.mem_singleton.mp he']

theorem LinkSetting.Holds.drop {links : Links} (h : S.Holds links) (pkgName : WString) :
    S.Holds (links.drop pkgName) :=
  fun a r hr => h a r (drop_apply_eq_some_iff.mp hr).1

/-- The meta data that is stored for a link. -/
def metaOf (e : WString × Registered) : LinkMeta :=
  ⟨e.2.path, e.1⟩

/-- The links are those of a package. -/
def MadeFor (pkg : Package) (made : List (WString × Registered)) : Prop :=
  ∀ e ∈ made, e.2.package = pkg.name ∧ e.2.version = pkg.version

theorem text_eq {pkg : Package} {e : WString × Registered}
    (h : e.2.package = pkg.name ∧ e.2.version = pkg.version) :
    linkText pkg (metaOf e) = e.2.text := by
  rw [Registered.text, linkText, linkText, h.1, h.2]
  rfl

/-- The links that are entered are found, before those that were there. -/
theorem Finds.addLinks {json : Json} {links : Links} (hmap : json.IsMap) (h : Finds json links)
    (hholds : S.Holds links) {pkg : Package} {made : List (WString × Registered)}
    (hmade : S.Admits made) (hpkg : MadeFor pkg made) :
    Finds (addLinks (made.map metaOf) pkg json) (links.enter made) := by
  induction made generalizing json links with
  | nil => exact h
  | cons e made ih =>
      have he := hmade e List.mem_cons_self
      have hrest : S.Admits made := fun e' he' => hmade e' (List.mem_cons_of_mem _ he')
      have hstep := Finds.setMember hmap h hholds he.1 e.2
      rw [← text_eq (hpkg e List.mem_cons_self)] at hstep
      exact ih (hmap.setMember _ _) hstep
        (hholds.enter_singleton he)
        hrest fun e' he' => hpkg e' (List.mem_cons_of_mem _ he')

/-! ### Texts only -/

def textPairs (pairs : List (Bytes × Bytes)) : List (Bytes × Json) :=
  pairs.map fun q => (q.1, .string q.2)

theorem exists_textPairs {json : Json} (hmap : json.IsMap)
    (htexts : ∀ key v, json.find key = some v → ∃ raw, v = .string raw) :
    ∃ pairs : List (Bytes × Bytes), json.items = textPairs pairs ∧
      json.elements = pairs.map (fun q => (some q.1, .string q.2)) ∧
      (pairs.map Prod.fst).Nodup ∧
      ∀ key raw, (key, raw) ∈ pairs ↔ json.find key = some (.string raw) := by
  cases hmap with
  | null => exact ⟨[], rfl, rfl, List.nodup_nil, fun key raw => by simp [Json.find]⟩
  | object keys nodup value =>
      have hvalue : ∀ key ∈ keys, ∃ raw, value key = .string raw := by
        intro key hkey
        exact htexts key (value key) (by rw [Json.find, if_pos hkey])
      choose! raw hraw using hvalue
      refine ⟨keys.map fun key => (key, raw key), ?_, ?_, ?_, ?_⟩
      · rw [Json.items, textPairs, List.map_map]
        exact List.map_congr_left fun key hkey => by rw [hraw key hkey]; rfl
      · rw [Json.elements, List.map_map]
        exact List.map_congr_left fun key hkey => by rw [hraw key hkey]; rfl
      · have hkeys : (keys.map fun key => (key, raw key)).map Prod.fst = keys := by
          rw [List.map_map]
          exact List.map_id keys
        rwa [hkeys]
      · intro key text
        rw [List.mem_map, Json.find]
        constructor
        · rintro ⟨key', hkey', heq⟩
          cases heq
          rw [if_pos hkey', hraw key hkey']
        · intro hfind
          split at hfind
          · rename_i hkey
            rw [hraw key hkey, Option.some.injEq, Json.string.injEq] at hfind
            exact ⟨key, hkey, by rw [hfind]⟩
          · cases hfind

def setTexts (pairs : List (Bytes × Bytes)) (json : Json) : Json :=
  pairs.foldl (fun json q => json.setMember q.1 (.string q.2)) json

theorem setTexts_isMap {pairs : List (Bytes × Bytes)} {json : Json} (h : json.IsMap) :
    (setTexts pairs json).IsMap := by
  induction pairs generalizing json with
  | nil => exact h
  | cons q pairs ih => exact ih (h.setMember _ _)

theorem find_setTexts {pairs : List (Bytes × Bytes)} (hnodup : (pairs.map Prod.fst).Nodup)
    {json : Json} (h : json.IsMap) {key : Bytes} {v : Json} :
    (setTexts pairs json).find key = some v ↔
      (∃ raw, (key, raw) ∈ pairs ∧ v = .string raw) ∨
        key ∉ pairs.map Prod.fst ∧ json.find key = some v := by
  induction pairs generalizing json with
  | nil => simp [setTexts]
  | cons q pairs ih =>
      rw [List.map_cons, List.nodup_cons] at hnodup
      have hstep : setTexts (q :: pairs) json =
          setTexts pairs (json.setMember q.1 (.string q.2)) := rfl
      rw [hstep, ih hnodup.2 (h.setMember _ _), h.find_setMember]
      by_cases hkey : key = q.1
      · subst hkey
        rw [if_pos rfl]
        constructor
        · rintro (⟨raw, hmem, hv⟩ | ⟨-, hv⟩)
          · exact .inl ⟨raw, List.mem_cons_of_mem _ hmem, hv⟩
          · exact .inl ⟨q.2, List.mem_cons_self, (Option.some.inj hv).symm⟩
        · rintro (⟨raw, hmem, hv⟩ | ⟨hnot, -⟩)
          · rcases List.mem_cons.mp hmem with heq | hmem
            · exact .inr ⟨hnodup.1, by rw [hv, ← heq]⟩
            · exact absurd (List.mem_map_of_mem (f := Prod.fst) hmem) hnodup.1
          · exact absurd (by simp) hnot
      · rw [if_neg hkey]
        have hpair (raw : Bytes) : (key, raw) ≠ q := by
          rintro rfl
          exact hkey rfl
        simp [hkey, hpair]

theorem setTexts_keepLink (pairs : List (Bytes × Bytes)) (json : Json) :
    (textPairs pairs).foldl keepLink json = setTexts pairs json := by
  induction pairs generalizing json with
  | nil => rfl
  | cons q pairs ih => exact ih _

theorem dropLoop_texts (host : LinkHost) (pkgName : WString) {pairs : List (Bytes × Bytes)}
    (howned : ∀ q ∈ pairs, linkOwner q.2 ≠ none) (newLinks : Json) (removed : List WString) :
    dropLoop host pkgName (pairs.map fun q => (some q.1, .string q.2)) newLinks removed =
      (.ok (setTexts (pairs.filter fun q => linkOwner q.2 ≠ some pkgName) newLinks),
        removed ++ (pairs.filter fun q => linkOwner q.2 = some pkgName).map fun q =>
          host.linkPath (encodeUtf16 q.1)) := by
  induction pairs generalizing newLinks removed with
  | nil => simp [dropLoop, setTexts]
  | cons q pairs ih =>
      obtain ⟨owner, howner⟩ := Option.ne_none_iff_exists'.mp (howned q List.mem_cons_self)
      have hrest : ∀ q' ∈ pairs, linkOwner q'.2 ≠ none :=
        fun q' hq' => howned q' (List.mem_cons_of_mem _ hq')
      rw [List.map_cons, dropLoop]
      simp only [Json.getString, howner, Json.iteratorKey]
      by_cases hpkg : owner = pkgName
      · subst hpkg
        rw [if_neg (by simp), ih hrest, List.filter_cons_of_neg (by simp [howner]),
          List.filter_cons_of_pos (by simp [howner])]
        simp [LinkHost.linkPath]
      · rw [if_pos hpkg, ih hrest, List.filter_cons_of_pos (by simp [howner, hpkg]),
          List.filter_cons_of_neg (by simp [howner, hpkg])]
        rfl

/-! ### The registry and the map -/

/-- The registry can be read, and holds the links of the map. -/
structure Enters (S : LinkSetting) (file : LinkFile) (links : Links) : Prop where
  readable : file = .missing ∨ ∃ obj, file = .parsed obj ∧ obj.IsMap
  isMap : file.linkObject.IsMap
  finds : Finds file.linkObject links
  root : ∀ a r, links a = some r → ∃ obj, file = .parsed obj ∧
    obj.find (narrow "app_packages_root") = some (.string (encodeUtf8 S.appPackages))

theorem enters_missing : Enters S .missing noLinks where
  readable := .inl rfl
  isMap := .null
  finds := finds_null
  root := fun _ _ h => by cases h

/-- The registry can be read and written, and stands for the setting. -/
structure LinkHost.Quiet (S : LinkSetting) (host : LinkHost) : Prop where
  openError : host.openError = none
  dumpError : host.dumpError = none
  writeError : host.writeError = none
  appLinks : host.appLinks = S.appLinks
  appPackages : host.appPackages = S.appPackages

theorem Finds.texts {json : Json} {links : Links} (h : Finds json links) (key : Bytes) (v : Json)
    (hv : json.find key = some v) : ∃ raw, v = .string raw := by
  obtain ⟨a, r, -, -, rfl⟩ := (h key v).mp hv
  exact ⟨r.text, rfl⟩

theorem find_keptLinks {json : Json} {links : Links} (hmap : json.IsMap) (h : Finds json links) :
    Finds (keptLinks json) links := by
  obtain ⟨pairs, hitems, -, hnodup, hpairs⟩ := exists_textPairs hmap h.texts
  intro key v
  rw [keptLinks, hitems, setTexts_keepLink, find_setTexts hnodup .null, ← h key v]
  constructor
  · rintro (⟨raw, hmem, rfl⟩ | ⟨-, hnull⟩)
    · exact (hpairs key raw).mp hmem
    · cases hnull
  · intro hv
    obtain ⟨raw, rfl⟩ := h.texts key v hv
    exact .inl ⟨raw, (hpairs key raw).mpr hv, rfl⟩

theorem readLinks_cases {host : LinkHost} {file : LinkFile} {links : Links}
    (hq : host.Quiet S) (h : Enters S file links) :
    (readLinks host file).IsMap ∧
      (readLinks host file).find linksKey = none ∧ file.linkObject = .null ∨
    ∃ json, (readLinks host file).IsMap ∧ (readLinks host file).find linksKey = some json ∧
      file.linkObject = json := by
  have hread : readLinks host file = .null ∧ file = .missing ∨
      ∃ obj, readLinks host file = obj ∧ obj.IsMap ∧ file = .parsed obj := by
    rcases h.readable with rfl | ⟨obj, rfl, hobj⟩
    · refine .inl ⟨?_, rfl⟩
      simp only [readLinks, parseJsonFile, hq.openError]
    · refine .inr ⟨obj, ?_, hobj, rfl⟩
      simp only [readLinks, parseJsonFile, hq.openError]
  rcases hread with ⟨hnull, rfl⟩ | ⟨obj, hobj, hmap, rfl⟩
  · rw [hnull]
    exact .inl ⟨.null, rfl, rfl⟩
  · rw [hobj]
    cases hlinks : obj.find linksKey with
    | none => exact .inl ⟨hmap, rfl, by rw [LinkFile.linkObject, hlinks]; rfl⟩
    | some json => exact .inr ⟨json, hmap, rfl, by rw [LinkFile.linkObject, hlinks]; rfl⟩

theorem oldLinks_eq {host : LinkHost} {file : LinkFile} {links : Links} (hq : host.Quiet S)
    (h : Enters S file links) :
    oldLinks (readLinks host file) = keptLinks file.linkObject := by
  unfold oldLinks
  rcases readLinks_cases hq h with ⟨-, hnone, hnull⟩ | ⟨json, -, hsome, hjson⟩
  · rw [hnone, hnull]
    rfl
  · rw [hsome, hjson]

theorem writeLinks_quiet {host : LinkHost} (hq : host.Quiet S) (obj : Json) (file : LinkFile) :
    writeLinks host obj file = (.ok (), .parsed obj) := by
  rw [writeLinks, hq.dumpError, hq.writeError]

theorem storedObject_of_isMap (host : LinkHost) (metas : List LinkMeta) (pkg : Package) {obj : Json}
    (h : obj.IsMap) : ∃ obj', storedObject host metas pkg obj = .ok obj' ∧ obj'.IsMap := by
  have h₁ := h.setMember linksKey (addLinks metas pkg (oldLinks obj))
  have h₂ := h₁.setMember (narrow "updated") (.string host.now)
  refine ⟨_, ?_, h₂.setMember (narrow "app_packages_root") (.string (encodeUtf8 host.appPackages))⟩
  exact bind_eq_ok_iff.mpr ⟨_, Json.set_eq_ok_iff.mpr ⟨h, rfl⟩,
    bind_eq_ok_iff.mpr ⟨_, Json.set_eq_ok_iff.mpr ⟨h₁, rfl⟩, Json.set_eq_ok_iff.mpr ⟨h₂, rfl⟩⟩⟩

/-- `LinkMetaStore` enters links. -/
theorem Enters.store {host : LinkHost} {file : LinkFile} {links : Links} (hq : host.Quiet S)
    (h : Enters S file links) (hholds : S.Holds links) {pkg : Package}
    {made : List (WString × Registered)} (hmade : S.Admits made) (hpkg : MadeFor pkg made) :
    ∃ file', linkMetaStore host (made.map metaOf) pkg file = (.ok (), file') ∧
      Enters S file' (links.enter made) := by
  by_cases hnone : made = []
  · subst hnone
    exact ⟨file, rfl, h⟩
  have hmap : (readLinks host file).IsMap := by
    rcases readLinks_cases hq h with ⟨hmap, -⟩ | ⟨-, hmap, -⟩
    · exact hmap
    · exact hmap
  obtain ⟨obj', hobj', hmap'⟩ := storedObject_of_isMap host (made.map metaOf) pkg hmap
  have hobject : (LinkFile.parsed obj').linkObject =
      addLinks (made.map metaOf) pkg (keptLinks file.linkObject) := by
    rw [LinkFile.linkObject, storedObject_ok hobj', oldLinks_eq hq h]
    rfl
  have hkept : (keptLinks file.linkObject).IsMap := foldl_keepLink_isMap _ .null
  refine ⟨.parsed obj', ?_, ?_⟩
  · rw [linkMetaStore, if_neg (by simpa using hnone), hobj']
    exact writeLinks_quiet hq obj' file
  · constructor
    · exact .inr ⟨obj', rfl, hmap'⟩
    · rw [hobject]
      exact (addLinks_spec _ _ hkept).1
    · rw [hobject]
      exact Finds.addLinks hkept (find_keptLinks h.isMap h.finds) hholds hmade hpkg
    · intro a r _
      refine ⟨obj', rfl, ?_⟩
      rw [storedObject_root hobj', hq.appPackages]

theorem Registered.Plain.owner {r : Registered} (h : r.Plain) :
    ∃ rest, linkParts r.text = r.package :: r.path :: rest := by
  rw [linkParts, Registered.text, encodeUtf16_linkText]
  exact ⟨_, components_pairedPart_iff.mpr ⟨h.1, components_pairedPart_iff.mpr ⟨h.2, rfl⟩⟩⟩

theorem Registered.Plain.linkOwner {r : Registered} (h : r.Plain) :
    linkOwner r.text = some r.package :=
  linkOwner_eq_some_iff.mpr ⟨r.path, h.owner⟩

/-- `DropLinks` drops the links of a package, and removes their files. -/
theorem Enters.drop {host : LinkHost} {file : LinkFile} {links : Links} (hq : host.Quiet S)
    (h : Enters S file links) (hholds : S.Holds links) (pkgName : WString) :
    (dropLinks host pkgName file).result = .ok () ∧
      Enters S (dropLinks host pkgName file).file (links.drop pkgName) ∧
      ∀ path, path ∈ (dropLinks host pkgName file).removed ↔
        ∃ a r, links a = some r ∧ r.package = pkgName ∧ path = host.linkPath a := by
  have hroot : ∀ a r, links.drop pkgName a = some r → ∃ obj, file = .parsed obj ∧
      obj.find (narrow "app_packages_root") = some (.string (encodeUtf8 S.appPackages)) :=
    fun a r hr => h.root a r (drop_apply_eq_some_iff.mp hr).1
  unfold dropLinks
  dsimp only
  rcases readLinks_cases hq h with ⟨-, hnone, hnull⟩ | ⟨json, hmap, hsome, hjson⟩
  · -- without links there is nothing to drop
    have hempty : ∀ a r, links a ≠ some r := by
      intro a r hr
      have hfind := (h.finds (encodeUtf8 a) (.string r.text)).mpr ⟨a, r, hr, rfl, rfl⟩
      rw [hnull] at hfind
      cases hfind
    have hsame : links.drop pkgName = links := by
      funext a
      cases hr : links a with
      | none => simp [Links.drop, hr]
      | some r => exact absurd hr (hempty a r)
    rw [hnone, hsame]
    refine ⟨rfl, h, fun path => iff_of_false (List.not_mem_nil) ?_⟩
    rintro ⟨a, r, hr, -⟩
    exact hempty a r hr
  · rw [hsome]
    dsimp only
    have hfinds : Finds json links := hjson ▸ h.finds
    obtain ⟨pairs, -, helements, hnodup, hpairs⟩ := exists_textPairs (hjson ▸ h.isMap) hfinds.texts
    -- every pair is a link of the map
    have hpair : ∀ q ∈ pairs, ∃ a r, links a = some r ∧ q.1 = encodeUtf8 a ∧ q.2 = r.text := by
      intro q hq
      obtain ⟨a, r, hr, hkey, htext⟩ := (hfinds q.1 (.string q.2)).mp ((hpairs q.1 q.2).mp hq)
      exact ⟨a, r, hr, hkey, Json.string.inj htext⟩
    have howned : ∀ q ∈ pairs, linkOwner q.2 ≠ none := by
      intro q hq
      obtain ⟨a, r, hr, -, htext⟩ := hpair q hq
      rw [htext, (hholds a r hr).2.linkOwner]
      exact Option.some_ne_none _
    rw [helements, dropLoop_texts host pkgName howned]
    dsimp only
    have hmap₁ := hmap.setMember (narrow "updated") (.string host.now)
    generalize hnew : setTexts (pairs.filter fun q => linkOwner q.2 ≠ some pkgName) .null = newLinks
    have hset : ((readLinks host file).set (narrow "updated") (.string host.now) >>= fun obj =>
        obj.set linksKey newLinks) = .ok (((readLinks host file).setMember (narrow "updated")
          (.string host.now)).setMember linksKey newLinks) :=
      bind_eq_ok_iff.mpr ⟨_, Json.set_eq_ok_iff.mpr ⟨hmap, rfl⟩,
        Json.set_eq_ok_iff.mpr ⟨hmap₁, rfl⟩⟩
    rw [hset]
    dsimp only
    rw [writeLinks_quiet hq]
    have hobject : (LinkFile.parsed (((readLinks host file).setMember (narrow "updated")
        (.string host.now)).setMember linksKey newLinks)).linkObject = newLinks := by
      rw [LinkFile.linkObject, hmap₁.find_setMember, if_pos rfl]
      rfl
    refine ⟨rfl, ⟨.inr ⟨_, rfl, hmap₁.setMember _ _⟩, ?_, ?_, ?_⟩, ?_⟩
    · rw [hobject, ← hnew]
      exact setTexts_isMap .null
    · rw [hobject, ← hnew]
      intro key v
      rw [find_setTexts (hnodup.sublist (List.filter_sublist.map _)) .null]
      constructor
      · rintro (⟨raw, hmem, rfl⟩ | ⟨-, hnull⟩)
        · obtain ⟨hmem, hother⟩ := List.mem_filter.mp hmem
          obtain ⟨a, r, hr, hkey, htext⟩ := hpair (key, raw) hmem
          dsimp only at hkey htext
          refine ⟨a, r, drop_apply_eq_some_iff.mpr ⟨hr, ?_⟩, hkey, by rw [htext]⟩
          rintro rfl
          rw [decide_eq_true_iff, htext, (hholds a r hr).2.linkOwner] at hother
          exact hother rfl
        · cases hnull
      · rintro ⟨a, r, hr, rfl, rfl⟩
        obtain ⟨hr, hother⟩ := drop_apply_eq_some_iff.mp hr
        refine .inl ⟨r.text, List.mem_filter.mpr ⟨?_, ?_⟩, rfl⟩
        · exact (hpairs _ _).mpr ((hfinds _ _).mpr ⟨a, r, hr, rfl, rfl⟩)
        · rw [decide_eq_true_iff, (hholds a r hr).2.linkOwner]
          exact fun heq => hother (Option.some.inj heq)
    · intro a r hr
      obtain ⟨obj, rfl, hroot'⟩ := hroot a r hr
      refine ⟨_, rfl, ?_⟩
      have hread : readLinks host (.parsed obj) = obj := by
        simp only [readLinks, parseJsonFile, hq.openError]
      rw [hmap₁.find_setMember, if_neg (by decide), hmap.find_setMember, if_neg (by decide), hread,
        hroot']
    · intro path
      rw [List.nil_append, List.mem_map]
      constructor
      · rintro ⟨q, hmem, rfl⟩
        obtain ⟨hmem, howner⟩ := List.mem_filter.mp hmem
        obtain ⟨a, r, hr, hkey, htext⟩ := hpair q hmem
        rw [decide_eq_true_iff, htext, (hholds a r hr).2.linkOwner] at howner
        refine ⟨a, r, hr, Option.some.inj howner, ?_⟩
        rw [hkey, (S.paired a (hholds a r hr).1).decode]
      · rintro ⟨a, r, hr, hpkg, rfl⟩
        refine ⟨(encodeUtf8 a, r.text), List.mem_filter.mpr ⟨?_, ?_⟩, ?_⟩
        · exact (hpairs _ _).mpr ((hfinds _ _).mpr ⟨a, r, hr, rfl, rfl⟩)
        · rw [decide_eq_true_iff, (hholds a r hr).2.linkOwner, hpkg]
        · rw [(S.paired a (hholds a r hr).1).decode]

/-! ## The directory -/

/-- No operation of the file system fails. -/
structure LinkEnv.Quiet (S : LinkSetting) (env : LinkEnv) : Prop where
  host : env.host.Quiet S
  file : env.file = S.file
  deleteError : ∀ path, env.deleteError path = none
  symlinkError : ∀ path, env.symlinkError false path = none
  renameError : ∀ path, env.renameError path = none

/-- Links that are put into the directory. -/
def LinkSetting.place (S : LinkSetting) (made : List (WString × Registered))
    (links : WString → Option LinkTarget) : WString → Option LinkTarget :=
  made.foldl (fun links e => Function.update links (S.fileOf e.1) (some e.2.leadsTo)) links

section

variable {env : LinkEnv} (hq : env.Quiet S)
include hq

theorem fileOf_linkPath (a : WString) : env.file (env.host.linkPath a) = S.fileOf a := by
  rw [hq.file, LinkHost.linkPath, hq.host.appLinks]
  rfl

theorem delete_quiet (path : WString) (store : LinkStore) :
    env.delete path store = env.write path none store := by
  rw [LinkEnv.delete, hq.deleteError]

theorem replace_quiet (a source : WString) (store : LinkStore) :
    env.symLink source (env.host.linkPath a)
      (if env.pathExists (env.host.linkPath a) store && true then
        env.delete (env.host.linkPath a) store else store) =
      .ok { store with links := Function.update store.links (S.fileOf a) (some (.symlink source)) }
    := by
  rw [Bool.and_true, delete_quiet hq]
  by_cases hexists : env.pathExists (env.host.linkPath a) store = true
  · have hfree : env.pathExists (env.host.linkPath a)
        (env.write (env.host.linkPath a) none store) = false := by
      simp [LinkEnv.pathExists, LinkEnv.write]
    rw [if_pos hexists, LinkEnv.symLink, hfree, hq.symlinkError]
    simp only [LinkEnv.write, fileOf_linkPath hq, Function.update_idem]
  · rw [if_neg hexists, LinkEnv.symLink, Bool.eq_false_iff.mpr hexists, hq.symlinkError]
    simp only [LinkEnv.write, fileOf_linkPath hq]

theorem symlinkLoop_quiet (leads : WString → WString) (pkg : Package)
    (lms linkmetas : List LinkMeta) (store : LinkStore) :
    env.symlinkLoop leads pkg true lms linkmetas store =
      (.ok (linkmetas ++ (env.reachedSymlinks leads pkg lms).map metaOf),
        { store with links := S.place (env.reachedSymlinks leads pkg lms) store.links }) := by
  induction lms generalizing linkmetas store with
  | nil => simp [LinkEnv.symlinkLoop, LinkEnv.reachedSymlinks, LinkSetting.place]
  | cons lm lms ih =>
      rw [LinkEnv.symlinkLoop]
      rcases hreach : env.reachable pkg lm with ⟨_ | source, relativePath⟩
      · dsimp only
        rw [ih, LinkEnv.reachedSymlinks, LinkEnv.reachedSymlinks, List.filterMap_cons_none]
        rw [hreach]
        rfl
      · dsimp only
        rw [replace_quiet hq]
        dsimp only
        have hcons : env.reachedSymlinks leads pkg (lm :: lms) =
            (lm.aliasName, ⟨pkg.name, relativePath, pkg.version, .symlink (leads source)⟩) ::
              env.reachedSymlinks leads pkg lms := by
          rw [LinkEnv.reachedSymlinks, List.filterMap_cons_some (by rw [hreach]; rfl)]
          rfl
        rw [ih, hcons, List.map_cons, List.append_assoc]
        rfl

theorem compile_quiet (source : WString) (lm : LinkMeta) (store : LinkStore) :
    env.compile source lm store =
      match env.compileError lm with
      | some ec => (.error ec, store)
      | none => (.ok (), { store with
          links := Function.update store.links (S.fileOf lm.aliasName) (some (.program source)) })
    := by
  unfold LinkEnv.compile
  cases env.compileError lm with
  | some ec => rfl
  | none =>
      dsimp only
      rw [hq.renameError, delete_quiet hq]
      dsimp only
      split
      · simp only [LinkEnv.write, fileOf_linkPath hq, Function.update_idem]
      · simp only [LinkEnv.write, fileOf_linkPath hq]

theorem launcherLoop_quiet (pkg : Package) (lms linkmetas : List LinkMeta) (store : LinkStore) :
    env.launcherLoop pkg lms linkmetas store =
      (linkmetas ++ (env.compiledPrograms pkg lms).map metaOf,
        { store with links := S.place (env.compiledPrograms pkg lms) store.links }) := by
  induction lms generalizing linkmetas store with
  | nil => simp [LinkEnv.launcherLoop, LinkEnv.compiledPrograms, LinkSetting.place]
  | cons lm lms ih =>
      rw [LinkEnv.launcherLoop]
      rcases hreach : env.reachable pkg lm with ⟨_ | source, relativePath⟩
      · have hcons : env.compiledPrograms pkg (lm :: lms) = env.compiledPrograms pkg lms := by
          rw [LinkEnv.compiledPrograms, List.filterMap_cons_none]
          · rfl
          · rw [hreach, Option.map_none, ite_self]
        rw [ih, hcons]
      · dsimp only
        rw [compile_quiet hq]
        cases hcompile : env.compileError lm with
        | some ec =>
            have hcons : env.compiledPrograms pkg (lm :: lms) = env.compiledPrograms pkg lms := by
              rw [LinkEnv.compiledPrograms, List.filterMap_cons_none]
              · rfl
              · rw [hcompile]
                rfl
            dsimp only
            rw [ih, hcons]
        | none =>
            have hcons : env.compiledPrograms pkg (lm :: lms) =
                (lm.aliasName, ⟨pkg.name, lm.path, pkg.version, .program source⟩) ::
                  env.compiledPrograms pkg lms := by
              rw [LinkEnv.compiledPrograms, List.filterMap_cons_some]
              · rfl
              · rw [hcompile, hreach]
                rfl
            dsimp only
            rw [ih, hcons, List.map_cons, List.append_assoc]
            rfl

end

/-! ## The store and the map -/

/-- The directory shows the links of the map under the names in play, and is as it was elsewhere. -/
structure Shows (S : LinkSetting) (before now : WString → Option LinkTarget) (links : Links) :
    Prop where
  inPlay : ∀ a, S.inPlay a → now (S.fileOf a) = (links a).map (·.leadsTo)
  others : ∀ file, (∀ a, S.inPlay a → file ≠ S.fileOf a) → now file = before file

/-- The directory and the registry are those of the map. -/
structure Refines (S : LinkSetting) (before : WString → Option LinkTarget) (store : LinkStore)
    (links : Links) : Prop where
  enters : Enters S store.registry links
  shown : Shows S before store.links links
  holds : S.Holds links

theorem fileOf_inj {a b : WString} (ha : S.inPlay a) (hb : S.inPlay b)
    (h : S.fileOf a = S.fileOf b) : a = b :=
  S.apart a b ha hb h

theorem place_cons (e : WString × Registered) (made : List (WString × Registered))
    (links : WString → Option LinkTarget) : S.place (e :: made) links =
      S.place made (Function.update links (S.fileOf e.1) (some e.2.leadsTo)) := rfl

theorem Shows.place {before now : WString → Option LinkTarget} {links : Links}
    (h : Shows S before now links) {made : List (WString × Registered)} (hmade : S.Admits made) :
    Shows S before (S.place made now) (links.enter made) := by
  induction made generalizing now links with
  | nil => exact h
  | cons e made ih =>
      have he := (hmade e List.mem_cons_self).1
      rw [enter_cons, place_cons]
      refine ih ⟨?_, ?_⟩ fun e' he' => hmade e' (List.mem_cons_of_mem _ he')
      · intro a ha
        by_cases hae : a = e.1
        · subst hae
          rw [Function.update_self, Function.update_self]
          rfl
        · have hfile : S.fileOf a ≠ S.fileOf e.1 := fun heq => hae (fileOf_inj ha he heq)
          rw [Function.update_of_ne hfile, Function.update_of_ne hae]
          exact h.inPlay a ha
      · intro file hfile
        rw [Function.update_of_ne (hfile e.1 he)]
        exact h.others file hfile

/-- The links of a package that are made, put into the directory and entered. -/
theorem Refines.enter {before : WString → Option LinkTarget} {store : LinkStore} {links : Links}
    (h : Refines S before store links) {env : LinkEnv} (hq : env.Quiet S) {pkg : Package}
    {made : List (WString × Registered)} (hmade : S.Admits made) (hpkg : MadeFor pkg made) :
    (env.storeMetas (made.map metaOf) pkg
        { store with links := S.place made store.links }).1 = .ok () ∧
      Refines S before (env.storeMetas (made.map metaOf) pkg
        { store with links := S.place made store.links }).2 (links.enter made) := by
  obtain ⟨file', hstore, henters⟩ := h.enters.store hq.host h.holds hmade hpkg
  rw [LinkEnv.storeMetas, hstore]
  exact ⟨rfl, henters, h.shown.place hmade, h.holds.enter hmade⟩

theorem foldl_delete_quiet {env : LinkEnv} (hq : env.Quiet S) (paths : List WString)
    (store : LinkStore) :
    (paths.foldl (fun store path => env.delete path store) store).registry = store.registry ∧
      ∀ file, (paths.foldl (fun store path => env.delete path store) store).links file =
        if file ∈ paths.map env.file then none else store.links file := by
  induction paths generalizing store with
  | nil => exact ⟨rfl, fun _ => rfl⟩
  | cons path paths ih =>
      rw [List.foldl_cons, delete_quiet hq]
      obtain ⟨hregistry, hlinks⟩ := ih (env.write path none store)
      refine ⟨hregistry, ?_⟩
      intro file
      rw [hlinks, List.map_cons]
      by_cases hrest : file ∈ paths.map env.file
      · rw [if_pos hrest, if_pos (List.mem_cons_of_mem _ hrest)]
      · rw [if_neg hrest]
        by_cases hfile : file = env.file path
        · rw [if_pos (by rw [hfile]; exact List.mem_cons_self), hfile]
          exact Function.update_self ..
        · rw [if_neg (by simpa [hfile] using hrest)]
          exact Function.update_of_ne hfile ..

theorem Refines.drop {before : WString → Option LinkTarget} {store : LinkStore} {links : Links}
    (h : Refines S before store links) {env : LinkEnv} (hq : env.Quiet S) (pkgName : WString) :
    Refines S before (env.dropLinks pkgName store).2 (links.drop pkgName) := by
  obtain ⟨-, henters, hremoved⟩ := h.enters.drop hq.host h.holds pkgName
  obtain ⟨hregistry, hlinks⟩ := foldl_delete_quiet hq
    (dropLinks env.host pkgName store.registry).removed
    { store with registry := (dropLinks env.host pkgName store.registry).file }
  have hfiles (file : WString) :
      file ∈ (dropLinks env.host pkgName store.registry).removed.map env.file ↔
        ∃ a r, links a = some r ∧ r.package = pkgName ∧ file = S.fileOf a := by
    rw [List.mem_map]
    constructor
    · rintro ⟨path, hpath, rfl⟩
      obtain ⟨a, r, hr, hpkg, rfl⟩ := (hremoved path).mp hpath
      exact ⟨a, r, hr, hpkg, fileOf_linkPath hq a⟩
    · rintro ⟨a, r, hr, hpkg, rfl⟩
      exact ⟨_, (hremoved _).mpr ⟨a, r, hr, hpkg, rfl⟩, fileOf_linkPath hq a⟩
  have hstore : (env.dropLinks pkgName store).2 =
      (dropLinks env.host pkgName store.registry).removed.foldl
        (fun store path => env.delete path store)
        { store with registry := (dropLinks env.host pkgName store.registry).file } := rfl
  rw [hstore]
  refine ⟨?_, ⟨?_, ?_⟩, h.holds.drop pkgName⟩
  · rw [hregistry]
    exact henters
  · intro a ha
    rw [hlinks]
    cases hr : links a with
    | none =>
        have hother : ¬ ∃ b r, links b = some r ∧ r.package = pkgName ∧
            S.fileOf a = S.fileOf b := by
          rintro ⟨b, r, hb, -, hfile⟩
          rw [fileOf_inj ha (h.holds b r hb).1 hfile, hb] at hr
          cases hr
        rw [if_neg (mt (hfiles _).mp hother)]
        dsimp only
        rw [h.shown.inPlay a ha, hr, Links.drop, hr]
        rfl
    | some r =>
        by_cases hpkg : r.package = pkgName
        · rw [if_pos ((hfiles _).mpr ⟨a, r, hr, hpkg, rfl⟩), Links.drop, hr]
          simp [hpkg]
        · have hother : ¬ ∃ b r, links b = some r ∧ r.package = pkgName ∧
              S.fileOf a = S.fileOf b := by
            rintro ⟨b, r', hb, hpkg', hfile⟩
            rw [← fileOf_inj ha (h.holds b r' hb).1 hfile, hr] at hb
            cases hb
            exact hpkg hpkg'
          rw [if_neg (mt (hfiles _).mp hother)]
          dsimp only
          rw [h.shown.inPlay a ha, hr, Links.drop, hr]
          simp [hpkg]
  · intro file hfile
    have hother : ¬ ∃ b r, links b = some r ∧ r.package = pkgName ∧ file = S.fileOf b := by
      rintro ⟨b, r, hb, -, rfl⟩
      exact hfile b (h.holds b r hb).1 rfl
    rw [hlinks, if_neg (mt (hfiles _).mp hother)]
    exact h.shown.others file hfile

/-! ## What comes back from the registry -/

/-- A path of names below the folder of a package.  It comes back from the registry, also where
leading components are left out. -/
structure LinkMeta.Plain (lm : LinkMeta) : Prop where
  plainPart : PlainPart lm.path
  rootless : WinPath.Rootless lm.path
  no_nul : (0 : WChar) ∉ lm.path
  names : ∀ c ∈ WinPath.elements lm.path, c ≠ [] ∧ WinPath.rootNameLength c = 0

theorem separator_unpaired {x : WChar} (h : isPathSeparator x = true) :
    isHighSurrogate x = false ∧ isLowSurrogate x = false := by
  simp only [isPathSeparator, Bool.or_eq_true, beq_iff_eq] at h
  rcases h with rfl | rfl
  · decide
  · decide

theorem paired_of_mem_elements {p c : WString} (hroot : WinPath.Rootless p) (h : Paired p)
    (hc : c ∈ WinPath.elements p) : Paired c := by
  rw [elements_of_rootless hroot] at hc
  rcases List.mem_append.mp hc with hc | hc
  · have hpiece : c ∈ (p.drop (WinPath.rootNameLength p)).splitOnP isPathSeparator :=
      List.mem_of_mem_filter hc
    rw [hroot.1, List.drop_zero] at hpiece
    refine Support.of_mem_splitOnP ?_ h hpiece
    intro s x t hx hpaired
    obtain ⟨hhigh, hlow⟩ := separator_unpaired hx
    exact hpaired.cut hhigh hlow
  · split at hc
    · rw [List.mem_singleton.mp hc]
      rfl
    · cases hc

theorem plainPart_joinParts {cs : List WString} (h : WinPath.AreNames cs)
    (hplain : ∀ c ∈ cs, PlainPart c) : PlainPart (WinPath.joinParts cs) := by
  induction h with
  | @single c hc =>
      have hjoin : WinPath.joinParts [c] = c := by simp [WinPath.joinParts, List.intercalate]
      rw [hjoin]
      exact hplain c List.mem_cons_self
  | @cons c cs hc hcs ih =>
      obtain ⟨d, cs, rfl⟩ := List.exists_cons_of_ne_nil hcs.ne_nil
      obtain ⟨hne, hat, hpaired⟩ := hplain c List.mem_cons_self
      obtain ⟨-, hrestat, hrestpaired⟩ := ih fun c' hc' => hplain c' (List.mem_cons_of_mem _ hc')
      rw [WinPath.joinParts_cons]
      refine ⟨by simp, ?_, hpaired.append (hrestpaired.cons (by decide))⟩
      rw [List.mem_append, List.mem_cons]
      rintro (hmem | heq | hmem)
      · exact hat hmem
      · exact absurd heq (by decide)
      · exact hrestat hmem

/-- What is recorded is the path itself, or some of its last components. -/
theorem relativePath_cases {env : LinkEnv} {pkg : Package} {lm : LinkMeta} {source : WString}
    (hsource : (env.reachable pkg lm).1 = some source) :
    (env.reachable pkg lm).2 = lm.path ∨
      ∃ s, s <:+ WinPath.elements lm.path ∧ s ≠ [] ∧
        (env.reachable pkg lm).2 = s.foldl appendRelative [] := by
  unfold LinkEnv.reachable pathReachableCat at *
  dsimp only at *
  split
  · exact .inl rfl
  · next hpresent =>
    rw [if_neg hpresent] at hsource
    rcases probe_cases env.present (env.host.packageFolder pkg.name)
      (WinPath.elements lm.path).tail lm.path with ⟨s, hs, hne, -, hout, -⟩ | ⟨hnone, -⟩
    · rw [hout]
      exact .inr ⟨s, hs.trans (List.tail_suffix _), hne, rfl⟩
    · rw [hnone] at hsource
      cases hsource

theorem LinkMeta.Plain.reachable {lm : LinkMeta} (h : lm.Plain) {env : LinkEnv} {pkg : Package}
    {source : WString} (hsource : (env.reachable pkg lm).1 = some source) :
    PlainPart (env.reachable pkg lm).2 := by
  rcases relativePath_cases hsource with hpath | ⟨s, hsuffix, hs, hpath⟩
  · rw [hpath]
    exact h.plainPart
  · have hall : WinPath.elements lm.path ≠ [] := by
      intro hnil
      rw [hnil] at hsuffix
      exact hs (List.suffix_nil.mp hsuffix)
    have hareNames : WinPath.AreNames s :=
      areNames_of_suffix (areNames_elements h.rootless (fun c hc => (h.names c hc).2) hall)
        hsuffix hs
    have hmem : ∀ c ∈ s, c ∈ WinPath.elements lm.path := fun c hc => hsuffix.subset hc
    rw [hpath, foldl_appendRelative hareNames fun c hc hnul =>
      h.no_nul (mem_of_mem_elements h.rootless (hmem c hc) hnul)]
    apply plainPart_joinParts hareNames
    intro c hc
    refine ⟨(h.names c (hmem c hc)).1, ?_, ?_⟩
    · intro hat
      exact h.plainPart.2.1 (mem_of_mem_elements h.rootless (hmem c hc) hat)
    · exact paired_of_mem_elements h.rootless h.plainPart.2.2 (hmem c hc)

/-! ## One change -/

/-- The names of a package and of its links. -/
def WellNamed (S : LinkSetting) (pkg : Package) (lms : List LinkMeta) : Prop :=
  PlainPart pkg.name ∧ ∀ lm ∈ lms, S.inPlay lm.aliasName ∧ lm.Plain

/-- An installation has such names; a removal may name anything. -/
def LinkChange.WellNamed (S : LinkSetting) : LinkChange → Prop
  | .install pkg => Pkg.WellNamed S pkg (pkg.links ++ pkg.launchers)
  | .remove _ => True

/-- Links that may be entered for a package. -/
def Fits (S : LinkSetting) (pkg : Package) (made : List (WString × Registered)) : Prop :=
  S.Admits made ∧ MadeFor pkg made

section

variable {env : LinkEnv} {pkg : Package} {lms : List LinkMeta}

theorem fits_reachedSymlinks (env : LinkEnv) (hnamed : WellNamed S pkg lms)
    (leads : WString → WString) : Fits S pkg (env.reachedSymlinks leads pkg lms) := by
  have hmem : ∀ e ∈ env.reachedSymlinks leads pkg lms, (S.inPlay e.1 ∧ e.2.Plain) ∧
      e.2.package = pkg.name ∧ e.2.version = pkg.version := by
    intro e he
    rw [LinkEnv.reachedSymlinks, List.mem_filterMap] at he
    obtain ⟨lm, hlm, hsome⟩ := he
    obtain ⟨source, hsource, rfl⟩ := Option.map_eq_some_iff.mp hsome
    obtain ⟨hplay, hplain⟩ := hnamed.2 lm hlm
    exact ⟨⟨hplay, hnamed.1, hplain.reachable hsource⟩, rfl, rfl⟩
  exact ⟨fun e he => (hmem e he).1, fun e he => (hmem e he).2⟩

theorem fits_compiledPrograms (env : LinkEnv) (hnamed : WellNamed S pkg lms) :
    Fits S pkg (env.compiledPrograms pkg lms) := by
  have hmem : ∀ e ∈ env.compiledPrograms pkg lms, (S.inPlay e.1 ∧ e.2.Plain) ∧
      e.2.package = pkg.name ∧ e.2.version = pkg.version := by
    intro e he
    rw [LinkEnv.compiledPrograms, List.mem_filterMap] at he
    obtain ⟨lm, hlm, hsome⟩ := he
    split at hsome
    · cases hsome
    · obtain ⟨source, -, rfl⟩ := Option.map_eq_some_iff.mp hsome
      obtain ⟨hplay, hplain⟩ := hnamed.2 lm hlm
      exact ⟨⟨hplay, hnamed.1, hplain.plainPart⟩, rfl, rfl⟩
  exact ⟨fun e he => (hmem e he).1, fun e he => (hmem e he).2⟩

variable {before : WString → Option LinkTarget} {store : LinkStore} {links : Links}

theorem Refines.makeSymlinks (h : Refines S before store links) (hq : env.Quiet S)
    (hnamed : WellNamed S pkg lms) (leads : WString → WString) :
    ((env.makeSymlinks leads pkg true lms store).1 = .ok () ↔ env.directoriesError = none) ∧
      Refines S before (env.makeSymlinks leads pkg true lms store).2
        (links.enter (env.madeSymlinks leads pkg lms)) := by
  unfold LinkEnv.makeSymlinks LinkEnv.madeSymlinks
  cases hdirs : env.directoriesError with
  | some ec =>
      refine ⟨?_, h⟩
      constructor
      · intro herror
        cases herror
      · intro hnone
        cases hnone
  | none =>
      obtain ⟨hadmits, hmade⟩ := fits_reachedSymlinks env hnamed leads
      obtain ⟨hok, hrefines⟩ := h.enter hq hadmits hmade
      dsimp only
      rw [symlinkLoop_quiet hq]
      exact ⟨iff_of_true hok rfl, hrefines⟩

theorem Refines.newLaunchers (h : Refines S before store links) (hq : env.Quiet S)
    (hnamed : WellNamed S pkg pkg.launchers) :
    Refines S before (env.newLaunchers pkg store).2 (links.enter (env.madePrograms pkg)) := by
  unfold LinkEnv.newLaunchers LinkEnv.madePrograms
  cases env.directoriesError with
  | some ec => exact h
  | none =>
      cases env.builderError with
      | some ec => exact h
      | none =>
          obtain ⟨hadmits, hmade⟩ := fits_compiledPrograms env hnamed
          dsimp only
          rw [launcherLoop_quiet hq]
          exact (h.enter hq hadmits hmade).2

/-- The launchers are programs or links, as a compiler is there or not. -/
theorem Refines.launchers (h : Refines S before store links) (hq : env.Quiet S)
    (hnamed : WellNamed S pkg pkg.launchers) :
    Refines S before
      (if pkg.launchers.isEmpty then ((.ok (), store) : Except ErrorCode Unit × LinkStore)
        else if env.initialized then env.newLaunchers pkg store
        else env.newProxyLaunchers pkg true store).2
      (links.enter (env.madeLaunchers pkg)) := by
  by_cases hempty : pkg.launchers = []
  · have hnone : env.madeLaunchers pkg = [] := by
      unfold LinkEnv.madeLaunchers LinkEnv.madePrograms LinkEnv.madeSymlinks
      rw [hempty]
      cases env.proxyLauncher <;> simp [LinkEnv.compiledPrograms, LinkEnv.reachedSymlinks]
    rw [hnone, if_pos (by rw [hempty]; rfl)]
    exact h
  · rw [if_neg (by simpa using hempty)]
    unfold LinkEnv.madeLaunchers
    cases env.initialized with
    | true => exact h.newLaunchers hq hnamed
    | false =>
        unfold LinkEnv.newProxyLaunchers
        cases env.proxyLauncher with
        | error ec => exact h
        | ok proxyLauncher => exact (h.makeSymlinks hq hnamed _).2

theorem madeLaunchers_of_directoriesError {ec : ErrorCode}
    (hdirs : env.directoriesError = some ec) : env.madeLaunchers pkg = [] := by
  unfold LinkEnv.madeLaunchers LinkEnv.madePrograms LinkEnv.madeSymlinks
  rw [hdirs]
  cases env.proxyLauncher <;> simp

/-- `NewLinks` makes the links of a package and enters them. -/
theorem Refines.newLinks (h : Refines S before store links) (hq : env.Quiet S)
    (hnamed : WellNamed S pkg (pkg.links ++ pkg.launchers)) :
    Refines S before (env.newLinks pkg true store).2
      (links.enter (env.madeSymlinks id pkg pkg.links ++ env.madeLaunchers pkg)) := by
  have hlinks : WellNamed S pkg pkg.links :=
    ⟨hnamed.1, fun lm hlm => hnamed.2 lm (List.mem_append_left _ hlm)⟩
  have hlaunchers : WellNamed S pkg pkg.launchers :=
    ⟨hnamed.1, fun lm hlm => hnamed.2 lm (List.mem_append_right _ hlm)⟩
  unfold LinkEnv.newLinks
  dsimp only
  by_cases hempty : pkg.links = []
  · have hnone : env.madeSymlinks id pkg pkg.links = [] := by
      rw [hempty, LinkEnv.madeSymlinks]
      exact ite_self _
    rw [hnone, List.nil_append, if_pos (by rw [hempty]; rfl)]
    exact h.launchers hq hlaunchers
  · rw [if_neg (by simpa using hempty)]
    obtain ⟨hok, hrefines⟩ := h.makeSymlinks hq hlinks id
    have hsymlinks : env.newSymlinks pkg true store =
        env.makeSymlinks id pkg true pkg.links store := rfl
    rw [hsymlinks]
    rcases hmake : env.makeSymlinks id pkg true pkg.links store with ⟨ec | _, store'⟩
    · rw [hmake] at hok hrefines
      cases hdirs : env.directoriesError with
      | none => cases hok.mpr hdirs
      | some ec' =>
          rw [madeLaunchers_of_directoriesError hdirs, List.append_nil]
          exact hrefines
    · rw [hmake] at hrefines
      rw [enter_append]
      exact hrefines.launchers hq hlaunchers

end

theorem LinkStep.run_refines {before : WString → Option LinkTarget} {store : LinkStore}
    {links : Links} (h : Refines S before store links) {step : LinkStep} (hq : step.env.Quiet S)
    (hnamed : step.change.WellNamed S) : Refines S before (step.run store) (step.apply links) := by
  rcases step with ⟨pkg | pkgName, env⟩
  · exact (h.drop hq pkg.name).newLinks hq hnamed
  · exact h.drop hq pkgName

theorem runSteps_refines {before : WString → Option LinkTarget} {steps : List LinkStep}
    (hq : ∀ step ∈ steps, step.env.Quiet S) (hnamed : ∀ step ∈ steps, step.change.WellNamed S)
    {store : LinkStore} {links : Links} (h : Refines S before store links) :
    Refines S before (runSteps steps store) (applySteps steps links) := by
  induction steps generalizing store links with
  | nil => exact h
  | cons step steps ih =>
      have hstep := step.run_refines h (hq step List.mem_cons_self)
        (hnamed step List.mem_cons_self)
      exact ih (fun later hlater => hq later (List.mem_cons_of_mem _ hlater))
        (fun later hlater => hnamed later (List.mem_cons_of_mem _ hlater)) hstep

/-! ## Whole runs -/

/-- Nothing stands under the names in play, and there is no registry yet. -/
structure LinkSetting.Fresh (S : LinkSetting) (store : LinkStore) : Prop where
  registry : store.registry = .missing
  links : ∀ a, S.inPlay a → store.links (S.fileOf a) = none

/-- A run that no operation of the file system disturbs. -/
structure LinkSetting.QuietRun (S : LinkSetting) (steps : List LinkStep) : Prop where
  quiet : ∀ step ∈ steps, step.env.Quiet S
  wellNamed : ∀ step ∈ steps, step.change.WellNamed S

theorem LinkSetting.Fresh.refines {store : LinkStore} (h : S.Fresh store) :
    Refines S store.links store noLinks := by
  refine ⟨?_, ⟨?_, fun _ _ => rfl⟩, ?_⟩
  · rw [h.registry]
    exact enters_missing
  · intro a ha
    rw [h.links a ha]
    rfl
  · intro a r hr
    cases hr

theorem LinkSetting.Fresh.runSteps {store : LinkStore} (h : S.Fresh store) {steps : List LinkStep}
    (hrun : S.QuietRun steps) :
    Refines S store.links (runSteps steps store) (applySteps steps noLinks) :=
  runSteps_refines hrun.quiet hrun.wellNamed h.refines

end Baulk.Pkg
