import Baulk.Core.Json
import Baulk.Pkg.Package
import Mathlib.Data.List.Nodup

/-!
# The registry of links

`baulk.linkmeta.json` records for every link in the directory of links which
package it belongs to.  `LinkMetaStore` adds the links of a package and
`DropLinks` takes them out; both read the whole file, rebuild it and replace
it.  A file counts by what `parse_json_file` makes of it, and a file that was
written is read back as the value that was dumped.

Neither operation tells a file that cannot be read from one that is not there.
A run of operations therefore keeps the links of other packages exactly as long
as the file can be read or is missing, or the write fails as well.
-/

namespace Baulk.Pkg

open Support (components)

/-! ## The file -/

/-- The file, by what the parser makes of it. -/
inductive LinkFile where
  | missing
  | malformed (what : WString)
  | parsed (obj : Json)

/-- What one operation gets from its environment. -/
structure LinkHost where
  /-- How the file cannot be opened. -/
  openError : Option ErrorCode := none
  /-- What `dump` throws, as it does on strings that are not UTF-8. -/
  dumpError : Option ErrorCode := none
  /-- How `AtomicWriteText` fails.  It leaves the old file as it is. -/
  writeError : Option ErrorCode := none
  /-- `FormatTime(Now())`. -/
  now : Bytes
  /-- `vfs::AppLinks()`. -/
  appLinks : WString
  /-- `vfs::AppPackages()`. -/
  appPackages : WString

/-- `parse_json_file` of `baulk.linkmeta.json`. -/
def parseJsonFile (host : LinkHost) (file : LinkFile) : Except ErrorCode Json :=
  match host.openError, file with
  | some ec, _ => .error ec
  | none, .missing =>
      .error (ErrorCode.make 2 (wide "open json file 'baulk.linkmeta.json' "))
  | none, .malformed what =>
      .error (ErrorCode.make ErrorCode.errGeneral
        (wide "parse json file 'baulk.linkmeta.json' error: " ++ what))
  | none, .parsed obj => .ok obj

/-- The object that both operations start from; it is null if there is none. -/
def readLinks (host : LinkHost) (file : LinkFile) : Json :=
  match parseJsonFile host file with
  | .error _ => .null
  | .ok obj => obj

/-- `dump` and `AtomicWriteText`. -/
def writeLinks (host : LinkHost) (obj : Json) (file : LinkFile) :
    Except ErrorCode Unit × LinkFile :=
  match host.dumpError, host.writeError with
  | some ec, _ => (.error ec, file)
  | none, some ec => (.error ec, file)
  | none, none => (.ok (), .parsed obj)

def linksKey : Bytes := narrow "links"

/-! ## Storing links -/

def keepLink (newLinks : Json) (item : Bytes × Json) : Json :=
  match item.2 with
  | .string raw => newLinks.setMember item.1 (.string raw)
  | _ => newLinks

/-- The links of the file that are texts. -/
def keptLinks (links : Json) : Json :=
  links.items.foldl keepLink .null

/-- The links before those of the package are added. -/
def oldLinks (obj : Json) : Json :=
  match obj.find linksKey with
  | none => .null
  | some links => keptLinks links

/-- `name@path@version`. -/
def linkText (pkg : Package) (lm : LinkMeta) : Bytes :=
  encodeUtf8 (pkg.name ++ wide "@" ++ lm.path ++ wide "@" ++ pkg.version)

/-- The links of the package, in place of those of the same alias. -/
def addLinks (metas : List LinkMeta) (pkg : Package) (newLinks : Json) : Json :=
  metas.foldl
    (fun newLinks lm =>
      newLinks.setMember (encodeUtf8 lm.aliasName) (.string (linkText pkg lm)))
    newLinks

/-- The object that `LinkMetaStore` writes. -/
def storedObject (host : LinkHost) (metas : List LinkMeta) (pkg : Package)
    (obj : Json) : Except ErrorCode Json := do
  let obj ← obj.set linksKey (addLinks metas pkg (oldLinks obj))
  let obj ← obj.set (narrow "updated") (.string host.now)
  obj.set (narrow "app_packages_root") (.string (encodeUtf8 host.appPackages))

def linkMetaStore (host : LinkHost) (metas : List LinkMeta) (pkg : Package)
    (file : LinkFile) : Except ErrorCode Unit × LinkFile :=
  if metas.isEmpty then (.ok (), file)
  else
    match storedObject host metas pkg (readLinks host file) with
    | .error ec => (.error ec, file)
    | .ok obj => writeLinks host obj file

/-! ## Dropping links -/

/-- `StrSplit(value, ByChar('@'), SkipEmpty())` of the text of a link. -/
def linkParts (raw : Bytes) : List WString :=
  components (· == 0x40) (encodeUtf16 raw)

/-- The package that the text of a link names. -/
def linkOwner (raw : Bytes) : Option WString :=
  match linkParts raw with
  | name :: _ :: _ => some name
  | _ => none

/-- The loop of `DropLinks`: the links that stay, and the files to remove. -/
def dropLoop (host : LinkHost) (pkgName : WString) :
    List (Option Bytes × Json) → Json → List WString →
      Except ErrorCode Json × List WString
  | [], newLinks, removed => (.ok newLinks, removed)
  | (key, value) :: links, newLinks, removed =>
      match value.getString with
      | .error ec => (.error ec, removed)
      | .ok raw =>
          match linkOwner raw with
          | none => dropLoop host pkgName links newLinks removed
          | some owner =>
              match Json.iteratorKey key with
              | .error ec => (.error ec, removed)
              | .ok key =>
                  if owner ≠ pkgName then
                    dropLoop host pkgName links
                      (newLinks.setMember key (.string raw)) removed
                  else
                    dropLoop host pkgName links newLinks
                      (removed ++ [host.appLinks ++ wide "\\" ++
                        encodeUtf16 key])

/-- The result of an operation, the file after it, and the links in the
directory of links that it removes. -/
structure LinkRun where
  result : Except ErrorCode Unit
  file : LinkFile
  removed : List WString := []

def dropLinks (host : LinkHost) (pkgName : WString) (file : LinkFile) :
    LinkRun :=
  let obj := readLinks host file
  match obj.find linksKey with
  | none => { result := .ok (), file }
  | some links =>
      match dropLoop host pkgName links.elements .null [] with
      | (.error ec, removed) => { result := .error ec, file, removed }
      | (.ok newLinks, removed) =>
          match obj.set (narrow "updated") (.string host.now) >>= fun obj =>
              obj.set linksKey newLinks with
          | .error ec => { result := .error ec, file, removed }
          | .ok obj =>
              let written := writeLinks host obj file
              { result := written.1, file := written.2, removed }

/-! ## Runs -/

/-- An operation for a package. -/
inductive LinkOp where
  | store (metas : List LinkMeta) (pkg : Package)
  | drop (pkgName : WString)

def LinkOp.package : LinkOp → WString
  | .store _ pkg => pkg.name
  | .drop pkgName => pkgName

/-- The keys that an operation registers. -/
def LinkOp.aliases : LinkOp → List Bytes
  | .store metas _ => metas.map fun lm => encodeUtf8 lm.aliasName
  | .drop _ => []

/-- An operation and what its environment does. -/
structure LinkCall where
  op : LinkOp
  host : LinkHost

def LinkCall.run (call : LinkCall) (file : LinkFile) : LinkRun :=
  match call.op with
  | .store metas pkg =>
      let stored := linkMetaStore call.host metas pkg file
      { result := stored.1, file := stored.2 }
  | .drop pkgName => dropLinks call.host pkgName file

/-! ## What the loops do to one key -/

def LinkFile.entry (key : Bytes) : LinkFile → Option Bytes
  | .parsed obj => (obj.find linksKey).bind (Json.stringAt key)
  | _ => none

theorem stringAt_eq_some_iff {key raw : Bytes} {json : Json} :
    json.stringAt key = some raw ↔ json.find key = some (.string raw) := by
  unfold Json.stringAt
  split
  · rename_i text hfind
    rw [hfind]
    simp
  · rename_i hother
    constructor
    · nofun
    · intro hfind
      exact absurd hfind (hother raw)

theorem IsMap.keepLink {newLinks : Json} (h : newLinks.IsMap)
    (item : Bytes × Json) : (keepLink newLinks item).IsMap := by
  unfold Pkg.keepLink
  split
  · exact h.setMember _ _
  · exact h

theorem find_keepLink_of_ne {newLinks : Json} (h : newLinks.IsMap)
    {item : Bytes × Json} {key : Bytes} (hkey : key ≠ item.1) :
    (keepLink newLinks item).find key = newLinks.find key := by
  unfold keepLink
  split
  · rw [h.find_setMember, if_neg hkey]
  · rfl

theorem foldl_keepLink_isMap (items : List (Bytes × Json)) {newLinks : Json}
    (h : newLinks.IsMap) : (items.foldl keepLink newLinks).IsMap := by
  induction items generalizing newLinks with
  | nil => exact h
  | cons item items ih => exact ih (IsMap.keepLink h item)

/-- The loop keeps every text under its key, and every other key as it is. -/
theorem foldl_keepLink {items : List (Bytes × Json)}
    (hnodup : (items.map Prod.fst).Nodup) {newLinks : Json}
    (h : newLinks.IsMap) :
    (∀ key, key ∉ items.map Prod.fst →
      (items.foldl keepLink newLinks).find key = newLinks.find key) ∧
      ∀ key raw, (key, .string raw) ∈ items →
        (items.foldl keepLink newLinks).find key = some (.string raw) := by
  induction items generalizing newLinks with
  | nil => exact ⟨fun _ _ => rfl, fun _ _ hmem => nomatch hmem⟩
  | cons item items ih =>
      rw [List.map_cons, List.nodup_cons] at hnodup
      obtain ⟨hother, hkept⟩ := ih hnodup.2 (IsMap.keepLink h item)
      refine ⟨?_, ?_⟩
      · intro key hkey
        rw [List.map_cons, List.mem_cons, not_or] at hkey
        rw [List.foldl_cons, hother key hkey.2, find_keepLink_of_ne h hkey.1]
      · intro key raw hmem
        rcases List.mem_cons.mp hmem with rfl | hmem
        · rw [List.foldl_cons, hother key hnodup.1]
          change (newLinks.setMember key (.string raw)).find key = _
          rw [h.find_setMember, if_pos rfl]
        · exact hkept key raw hmem

theorem stringAt_keptLinks {links : Json} {key raw : Bytes}
    (h : links.stringAt key = some raw) :
    (keptLinks links).find key = some (.string raw) := by
  rw [stringAt_eq_some_iff] at h
  cases links with
  | object keys nodup value =>
      have hkeys : ((Json.object keys nodup value).items.map Prod.fst) =
          keys := by
        simp [Json.items, Function.comp_def]
      refine (foldl_keepLink (by rwa [hkeys]) .null).2 key raw ?_
      simp only [Json.find] at h
      split at h
      · rename_i hmem
        rw [← Option.some_inj.mp h]
        exact List.mem_map_of_mem hmem
      · cases h
  | null => cases h
  | boolean value => cases h
  | number value => cases h
  | string value => cases h
  | array elements => cases h

theorem addLinks_spec (metas : List LinkMeta) (pkg : Package) {newLinks : Json}
    (h : newLinks.IsMap) :
    (addLinks metas pkg newLinks).IsMap ∧
      ∀ key, key ∉ metas.map (fun lm => encodeUtf8 lm.aliasName) →
        (addLinks metas pkg newLinks).find key = newLinks.find key := by
  induction metas generalizing newLinks with
  | nil => exact ⟨h, fun _ _ => rfl⟩
  | cons lm metas ih =>
      obtain ⟨hmap, hother⟩ := ih (h.setMember (encodeUtf8 lm.aliasName)
        (.string (linkText pkg lm)))
      refine ⟨hmap, ?_⟩
      intro key hkey
      rw [List.map_cons, List.mem_cons, not_or] at hkey
      rw [addLinks, List.foldl_cons]
      rw [addLinks] at hother
      rw [hother key hkey.2, h.find_setMember, if_neg hkey.1]

theorem getString_ok {json : Json} {raw : Bytes}
    (h : json.getString = .ok raw) : json = .string raw := by
  unfold Json.getString at h
  split at h <;> cases h
  rfl

/-- No link of the package is among the new ones. -/
def Dropped (pkgName : WString) (links : Json) : Prop :=
  ∀ key raw, links.find key = some (.string raw) →
    linkOwner raw ≠ some pkgName

/-- What the loop of `DropLinks` makes of the new links. -/
structure DropsFrom (pkgName : WString) (links : List (Option Bytes × Json))
    (newLinks result : Json) : Prop where
  isMap : result.IsMap
  other : ∀ key, some key ∉ links.map Prod.fst →
    result.find key = newLinks.find key
  kept : (links.map Prod.fst).Nodup → ∀ key raw owner,
    (some key, .string raw) ∈ links → linkOwner raw = some owner →
    owner ≠ pkgName → result.find key = some (.string raw)
  dropped : Dropped pkgName newLinks → Dropped pkgName result

theorem dropLoop_dropsFrom {host : LinkHost} {pkgName : WString}
    {links : List (Option Bytes × Json)} {newLinks result : Json}
    (hmap : newLinks.IsMap) {removed removed' : List WString}
    (h : dropLoop host pkgName links newLinks removed =
      (.ok result, removed')) :
    DropsFrom pkgName links newLinks result := by
  induction links generalizing newLinks removed with
  | nil =>
      cases h
      exact ⟨hmap, fun _ _ => rfl, fun _ _ _ _ hmem => (nomatch hmem), id⟩
  | cons link links ih =>
      obtain ⟨key, value⟩ := link
      -- A link that does not stay leaves the new links as they are.
      have hskip : ∀ {removed₁}, dropLoop host pkgName links newLinks removed₁ =
          (.ok result, removed') →
          (∀ raw owner, value = .string raw → linkOwner raw = some owner →
            owner = pkgName) →
          DropsFrom pkgName ((key, value) :: links) newLinks result := by
        intro removed₁ hrest hown
        obtain ⟨hresult, hother, hkept, hdropped⟩ := ih hmap hrest
        refine ⟨hresult, ?_, ?_, hdropped⟩
        · intro k hk
          rw [List.map_cons, List.mem_cons, not_or] at hk
          exact hother k hk.2
        · intro hnodup k raw owner hmem howner hne
          rw [List.map_cons, List.nodup_cons] at hnodup
          rcases List.mem_cons.mp hmem with heq | hmem
          · cases heq
            exact absurd (hown raw owner rfl howner) hne
          · exact hkept hnodup.2 k raw owner hmem howner hne
      unfold dropLoop at h
      split at h
      · cases h
      rename_i raw hraw
      have hvalue := getString_ok hraw
      subst hvalue
      cases howner : linkOwner raw with
      | none =>
          rw [howner] at h
          refine hskip h ?_
          intro raw' owner hraw' howner'
          cases hraw'
          rw [howner] at howner'
          cases howner'
      | some owner =>
          rw [howner] at h
          cases key with
          | none => cases h
          | some key =>
              dsimp only [Json.iteratorKey] at h
              by_cases hown : owner = pkgName
              · rw [if_neg (not_not.mpr hown)] at h
                refine hskip h ?_
                intro raw' owner' hraw' howner'
                cases hraw'
                rw [howner] at howner'
                cases howner'
                exact hown
              · rw [if_pos hown] at h
                obtain ⟨hresult, hother, hkept, hdropped⟩ :=
                  ih (hmap.setMember key (.string raw)) h
                refine ⟨hresult, ?_, ?_, ?_⟩
                · intro k hk
                  rw [List.map_cons, List.mem_cons, not_or] at hk
                  rw [hother k hk.2, hmap.find_setMember,
                    if_neg (fun hkey => hk.1 (congrArg some hkey))]
                · intro hnodup k raw' owner' hmem howner' hne
                  rw [List.map_cons, List.nodup_cons] at hnodup
                  rcases List.mem_cons.mp hmem with heq | hmem
                  · cases heq
                    rw [hother key hnodup.1, hmap.find_setMember, if_pos rfl]
                  · exact hkept hnodup.2 k raw' owner' hmem howner' hne
                · intro hnew
                  refine hdropped ?_
                  intro k raw' hfind
                  rw [hmap.find_setMember] at hfind
                  split at hfind
                  · cases hfind
                    rw [howner]
                    exact fun heq => hown (Option.some_inj.mp heq)
                  · exact hnew k raw' hfind

/-! ## One operation -/

theorem dropped_null (pkgName : WString) : Dropped pkgName .null :=
  fun _ _ h => nomatch h

theorem dropLoop_links {host : LinkHost} {pkgName : WString}
    {links result : Json} {removed : List WString}
    (h : dropLoop host pkgName links.elements .null [] =
      (.ok result, removed)) :
    Dropped pkgName result ∧ ∀ key raw owner,
      links.stringAt key = some raw → linkOwner raw = some owner →
      owner ≠ pkgName → result.find key = some (.string raw) := by
  obtain ⟨-, -, hkept, hdropped⟩ := dropLoop_dropsFrom .null h
  refine ⟨hdropped (dropped_null pkgName), ?_⟩
  intro key raw owner hraw howner hne
  rw [stringAt_eq_some_iff] at hraw
  cases links with
  | object keys nodup value =>
      refine hkept ?_ key raw owner ?_ howner hne
      · simp only [Json.elements, List.map_map, Function.comp_def]
        exact List.Nodup.map (Option.some_injective _) nodup
      · simp only [Json.find] at hraw
        split at hraw
        · rename_i hmem
          rw [← Option.some_inj.mp hraw]
          exact List.mem_map_of_mem hmem
        · cases hraw
  | null => cases hraw
  | boolean value => cases hraw
  | number value => cases hraw
  | string value => cases hraw
  | array elements => cases hraw

/-- What one operation owes to the other packages, to a file that cannot be
read, and to the package whose links it drops. -/
structure LinkCall.Isolated (call : LinkCall) (file : LinkFile) : Prop where
  others : ∀ key raw owner, file.entry key = some raw →
    linkOwner raw = some owner → owner ≠ call.op.package →
    key ∉ call.op.aliases → (call.run file).file.entry key = some raw
  unread : file ≠ .missing → (parseJsonFile call.host file).isOk = false →
    (call.run file).result.isOk = false ∧ (call.run file).file = file
  dropped : ∀ pkgName, call.op = .drop pkgName →
    (call.run file).result.isOk = true →
    ∀ key raw, (call.run file).file.entry key = some raw →
      linkOwner raw ≠ some pkgName

/-- The file is missing or can be read, or links are stored and the write fails
as well. -/
def LinkCall.Safe (call : LinkCall) (file : LinkFile) : Prop :=
  file = .missing ∨ (parseJsonFile call.host file).isOk = true ∨
    ∃ metas pkg, call.op = .store metas pkg ∧ metas ≠ [] ∧
      (call.host.dumpError ≠ none ∨ call.host.writeError ≠ none)

theorem readLinks_of_unread {host : LinkHost} {file : LinkFile}
    (h : (parseJsonFile host file).isOk = false) :
    readLinks host file = .null := by
  unfold readLinks
  cases hparse : parseJsonFile host file with
  | error ec => rfl
  | ok obj =>
      rw [hparse] at h
      cases h

theorem parseJsonFile_ok {host : LinkHost} {file : LinkFile} {obj : Json}
    (h : parseJsonFile host file = .ok obj) : file = .parsed obj := by
  unfold parseJsonFile at h
  split at h <;> cases h
  rfl

theorem writeLinks_cases (host : LinkHost) (obj : Json) (file : LinkFile) :
    (host.dumpError = none ∧ host.writeError = none ∧
      writeLinks host obj file = (.ok (), .parsed obj)) ∨
    ((host.dumpError ≠ none ∨ host.writeError ≠ none) ∧
      ∃ ec, writeLinks host obj file = (.error ec, file)) := by
  unfold writeLinks
  cases hdump : host.dumpError with
  | some ec => exact .inr ⟨.inl nofun, ec, rfl⟩
  | none =>
      cases hwrite : host.writeError with
      | some ec => exact .inr ⟨.inr nofun, ec, rfl⟩
      | none => exact .inl ⟨rfl, rfl, rfl⟩

theorem storedObject_ok {host : LinkHost} {metas : List LinkMeta}
    {pkg : Package} {obj obj' : Json}
    (h : storedObject host metas pkg obj = .ok obj') :
    obj'.find linksKey = some (addLinks metas pkg (oldLinks obj)) := by
  unfold storedObject at h
  obtain ⟨obj₁, hlinks, h⟩ := bind_eq_ok_iff.mp h
  obtain ⟨obj₂, hupdated, hroot⟩ := bind_eq_ok_iff.mp h
  obtain ⟨hmap, rfl⟩ := Json.set_eq_ok_iff.mp hlinks
  obtain ⟨hmap₁, rfl⟩ := Json.set_eq_ok_iff.mp hupdated
  obtain ⟨hmap₂, rfl⟩ := Json.set_eq_ok_iff.mp hroot
  rw [hmap₂.find_setMember, if_neg (by decide), hmap₁.find_setMember,
    if_neg (by decide), hmap.find_setMember, if_pos rfl]

theorem storedObject_null (host : LinkHost) (metas : List LinkMeta)
    (pkg : Package) : ∃ obj, storedObject host metas pkg .null = .ok obj :=
  ⟨_, rfl⟩

theorem entry_parsed {obj links : Json} (h : obj.find linksKey = some links)
    (key : Bytes) : (LinkFile.parsed obj).entry key = links.stringAt key := by
  rw [LinkFile.entry, h, Option.bind_some]

theorem links_of_entry {file : LinkFile} {key raw : Bytes}
    (h : file.entry key = some raw) : ∃ obj links, file = .parsed obj ∧
      obj.find linksKey = some links ∧ links.stringAt key = some raw := by
  cases file with
  | missing => cases h
  | malformed what => cases h
  | parsed obj =>
      obtain ⟨links, hlinks, hraw⟩ := Option.bind_eq_some_iff.mp h
      exact ⟨obj, links, rfl, hlinks, hraw⟩

theorem readLinks_of_ok {host : LinkHost} {obj : Json}
    (h : (parseJsonFile host (.parsed obj)).isOk = true) :
    readLinks host (.parsed obj) = obj := by
  unfold readLinks
  cases hparse : parseJsonFile host (.parsed obj) with
  | error ec =>
      rw [hparse] at h
      cases h
  | ok obj' =>
      cases parseJsonFile_ok hparse
      rfl

theorem linkMetaStore_entry {host : LinkHost} {metas : List LinkMeta}
    {pkg : Package} {file : LinkFile}
    (hread : (parseJsonFile host file).isOk = true) {key raw : Bytes}
    (hraw : file.entry key = some raw)
    (hkey : key ∉ metas.map fun lm => encodeUtf8 lm.aliasName) :
    (linkMetaStore host metas pkg file).2.entry key = some raw := by
  obtain ⟨obj, links, rfl, hlinks, hstring⟩ := links_of_entry hraw
  unfold linkMetaStore
  split
  · exact hraw
  rw [readLinks_of_ok hread]
  cases hstored : storedObject host metas pkg obj with
  | error ec => exact hraw
  | ok obj' =>
      dsimp only
      rcases writeLinks_cases host obj' (.parsed obj) with
        ⟨-, -, hwrite⟩ | ⟨-, ec, hwrite⟩
      · have hold : oldLinks obj = keptLinks links := by
          rw [oldLinks, hlinks]
        have hmap : (keptLinks links).IsMap := foldl_keepLink_isMap _ .null
        rw [hwrite, entry_parsed (storedObject_ok hstored), hold,
          stringAt_eq_some_iff, (addLinks_spec metas pkg hmap).2 key hkey]
        exact stringAt_keptLinks hstring
      · rw [hwrite]
        exact hraw

/-- `DropLinks` finds no links, fails, or writes those that its loop leaves. -/
theorem dropLinks_cases (host : LinkHost) (pkgName : WString)
    (file : LinkFile) :
    ((readLinks host file).find linksKey = none ∧
      dropLinks host pkgName file = { result := .ok (), file }) ∨
    ((dropLinks host pkgName file).result.isOk = false ∧
      (dropLinks host pkgName file).file = file) ∨
    ∃ links newLinks removed obj,
      (readLinks host file).find linksKey = some links ∧
      dropLoop host pkgName links.elements .null [] = (.ok newLinks, removed) ∧
      obj.find linksKey = some newLinks ∧
      (dropLinks host pkgName file).file = .parsed obj := by
  unfold dropLinks
  dsimp only
  cases hlinks : (readLinks host file).find linksKey with
  | none => exact .inl ⟨rfl, rfl⟩
  | some links =>
      right
      dsimp only
      rcases hloop : dropLoop host pkgName links.elements .null [] with
        ⟨ec | newLinks, removed⟩
      · exact .inl ⟨rfl, rfl⟩
      · dsimp only
        split
        · exact .inl ⟨rfl, rfl⟩
        · rename_i obj hset
          obtain ⟨obj₁, hupdated, hset⟩ := bind_eq_ok_iff.mp hset
          obtain ⟨hmap, rfl⟩ := Json.set_eq_ok_iff.mp hset
          rcases writeLinks_cases host (obj₁.setMember linksKey newLinks) file
            with ⟨-, -, hwrite⟩ | ⟨-, ec, hwrite⟩
          · refine .inr ⟨links, newLinks, removed,
              obj₁.setMember linksKey newLinks, rfl, hloop, ?_, ?_⟩
            · rw [hmap.find_setMember, if_pos rfl]
            · rw [hwrite]
          · rw [hwrite]
            exact .inl ⟨rfl, rfl⟩

theorem dropLinks_entry {host : LinkHost} {pkgName : WString} {file : LinkFile}
    (hread : (parseJsonFile host file).isOk = true) {key raw : Bytes}
    {owner : WString} (hraw : file.entry key = some raw)
    (howner : linkOwner raw = some owner) (hne : owner ≠ pkgName) :
    (dropLinks host pkgName file).file.entry key = some raw := by
  obtain ⟨obj, links, rfl, hlinks, hstring⟩ := links_of_entry hraw
  have hread' := readLinks_of_ok hread
  rcases dropLinks_cases host pkgName (.parsed obj) with
    ⟨-, hdrop⟩ | ⟨-, hfile⟩ | ⟨links', newLinks, removed, obj', hlinks', hloop,
      hobj, hfile⟩
  · rw [hdrop]
    exact hraw
  · rw [hfile]
    exact hraw
  · rw [hread', hlinks] at hlinks'
    cases hlinks'
    rw [hfile, entry_parsed hobj, stringAt_eq_some_iff]
    exact (dropLoop_links hloop).2 key raw owner hstring howner hne

theorem dropLinks_dropped {host : LinkHost} {pkgName : WString}
    {file : LinkFile}
    (hread : file = .missing ∨ (parseJsonFile host file).isOk = true)
    (hok : (dropLinks host pkgName file).result.isOk = true) {key raw : Bytes}
    (hraw : (dropLinks host pkgName file).file.entry key = some raw) :
    linkOwner raw ≠ some pkgName := by
  rcases dropLinks_cases host pkgName file with
    ⟨hnone, hdrop⟩ | ⟨hfailed, -⟩ | ⟨links, newLinks, removed, obj, -, hloop,
      hobj, hfile⟩
  · rw [hdrop] at hraw
    obtain ⟨obj, links, rfl, hlinks, -⟩ := links_of_entry hraw
    rcases hread with hmissing | hread
    · cases hmissing
    · rw [readLinks_of_ok hread, hlinks] at hnone
      cases hnone
  · rw [hfailed] at hok
    cases hok
  · rw [hfile, entry_parsed hobj, stringAt_eq_some_iff] at hraw
    exact (dropLoop_links hloop).1 key raw hraw

/-- What an operation does when the file is there and cannot be read: it takes
it for empty. -/
theorem LinkCall.run_unread {call : LinkCall} {file : LinkFile}
    (hunread : (parseJsonFile call.host file).isOk = false) :
    ((call.run file).result.isOk = false ∧ (call.run file).file = file) ↔
      ∃ metas pkg, call.op = .store metas pkg ∧ metas ≠ [] ∧
        (call.host.dumpError ≠ none ∨ call.host.writeError ≠ none) := by
  obtain ⟨op, host⟩ := call
  have hnull : readLinks host file = .null := readLinks_of_unread hunread
  cases op with
  | store metas pkg =>
      simp only [run, linkMetaStore]
      by_cases hempty : metas = []
      · subst hempty
        constructor
        · rintro ⟨hresult, -⟩
          cases hresult
        · rintro ⟨metas', pkg', hop, hmetas, -⟩
          cases hop
          exact absurd rfl hmetas
      · have hmetas : ¬ metas.isEmpty = true := by
          rwa [List.isEmpty_iff]
        obtain ⟨obj, hobj⟩ := storedObject_null host metas pkg
        rw [if_neg hmetas, hnull, hobj]
        dsimp only
        rcases writeLinks_cases host obj file with
          ⟨hdump, hwrite, hwritten⟩ | ⟨hfails, ec, hwritten⟩
        · rw [hwritten]
          constructor
          · rintro ⟨hresult, -⟩
            cases hresult
          · rintro ⟨-, -, -, -, hfails | hfails⟩
            · exact absurd hdump hfails
            · exact absurd hwrite hfails
        · rw [hwritten]
          exact ⟨fun _ => ⟨metas, pkg, rfl, hempty, hfails⟩,
            fun _ => ⟨rfl, rfl⟩⟩
  | drop pkgName =>
      have hdrop : dropLinks host pkgName file = { result := .ok (), file } := by
        rw [dropLinks, hnull]
        rfl
      simp only [run, hdrop]
      constructor
      · rintro ⟨hresult, -⟩
        cases hresult
      · rintro ⟨metas, pkg, hop, -⟩
        cases hop

/-- One operation keeps its promises exactly if it is safe. -/
theorem LinkCall.isolated_iff (call : LinkCall) (file : LinkFile) :
    call.Isolated file ↔ call.Safe file := by
  cases hread : (parseJsonFile call.host file).isOk with
  | true =>
      refine iff_of_true ⟨?_, ?_, ?_⟩ (.inr (.inl hread))
      · intro key raw owner hraw howner hne hkey
        obtain ⟨op, host⟩ := call
        cases op with
        | store metas pkg => exact linkMetaStore_entry hread hraw hkey
        | drop pkgName => exact dropLinks_entry hread hraw howner hne
      · intro _ hunread
        rw [hread] at hunread
        cases hunread
      · intro pkgName hop hok key raw hraw
        obtain ⟨op, host⟩ := call
        cases hop
        exact dropLinks_dropped (.inr hread) hok hraw
  | false =>
      by_cases hmissing : file = .missing
      · subst hmissing
        refine iff_of_true ⟨nofun, fun h => absurd rfl h, ?_⟩ (.inl rfl)
        intro pkgName hop hok key raw hraw
        obtain ⟨op, host⟩ := call
        cases hop
        exact dropLinks_dropped (.inl rfl) hok hraw
      · have hiff := LinkCall.run_unread hread
        constructor
        · intro hisolated
          exact .inr (.inr (hiff.mp (hisolated.unread hmissing hread)))
        · rintro (hmissing' | hread' | hstore)
          · exact absurd hmissing' hmissing
          · rw [hread] at hread'
            cases hread'
          · obtain ⟨hresult, hfile⟩ := hiff.mpr hstore
            refine ⟨?_, fun _ _ => ⟨hresult, hfile⟩, ?_⟩
            · intro key raw owner hraw _ _ _
              rw [hfile]
              exact hraw
            · intro pkgName _ hok
              rw [hresult] at hok
              cases hok

/-! ## Any number of operations -/

/-- Every operation of a run meets a condition on the file it finds. -/
def EachCall (p : LinkCall → LinkFile → Prop) : List LinkCall → LinkFile → Prop
  | [], _ => True
  | call :: calls, file => p call file ∧ EachCall p calls (call.run file).file

/-- In a run every operation keeps its promises exactly if each of them is safe
on the file it finds. -/
theorem eachCall_isolated_iff (calls : List LinkCall) (file : LinkFile) :
    EachCall LinkCall.Isolated calls file ↔
      EachCall LinkCall.Safe calls file := by
  induction calls generalizing file with
  | nil => exact Iff.rfl
  | cons call calls ih =>
      exact and_congr (LinkCall.isolated_iff call file) (ih _)

/-- The file after a run. -/
def runCalls (calls : List LinkCall) (file : LinkFile) : LinkFile :=
  calls.foldl (fun file call => (call.run file).file) file

/-- An entry outlives every run of safe operations that are not for its package
and do not register its key. -/
theorem runCalls_entry {calls : List LinkCall} {file : LinkFile}
    (hsafe : EachCall LinkCall.Safe calls file) {key raw : Bytes}
    {owner : WString} (hraw : file.entry key = some raw)
    (howner : linkOwner raw = some owner)
    (hcalls : ∀ call ∈ calls,
      owner ≠ call.op.package ∧ key ∉ call.op.aliases) :
    (runCalls calls file).entry key = some raw := by
  induction calls generalizing file with
  | nil => exact hraw
  | cons call calls ih =>
      obtain ⟨hne, hkey⟩ := hcalls call List.mem_cons_self
      have hisolated := (LinkCall.isolated_iff call file).mpr hsafe.1
      exact ih hsafe.2 (hisolated.others key raw owner hraw howner hne hkey)
        fun c hc => hcalls c (List.mem_cons_of_mem _ hc)

/-! ### A file that is locked -/

/-- The file holds a link of the package `b`. -/
def sharedFile : LinkFile :=
  .parsed (.object [linksKey] (by decide) fun _ =>
    .object [narrow "b.exe"] (by decide) fun _ =>
      .string (narrow "b@b.exe@1"))

/-- A link of the package `a` is stored while the file cannot be opened. -/
def lockedStore : LinkCall where
  op := .store [⟨wide "a.exe", wide "a.exe"⟩]
    { name := wide "a", version := wide "1" }
  host :=
    { openError := some (ErrorCode.make 13 []), now := [], appLinks := []
      appPackages := [] }

/-- The link of `b` is lost. -/
theorem lockedStore_not_isolated :
    ¬ EachCall LinkCall.Isolated [lockedStore] sharedFile := by
  rintro ⟨hisolated, -⟩
  have hlost : (lockedStore.run sharedFile).file.entry (narrow "b.exe") =
      none := by
    decide
  have hkept := hisolated.others (narrow "b.exe") (narrow "b@b.exe@1")
    (wide "b") (by decide) (by decide) (by decide)
    (by decide)
  rw [hlost] at hkept
  cases hkept

end Baulk.Pkg
