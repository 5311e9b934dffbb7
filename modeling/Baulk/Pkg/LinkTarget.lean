import Baulk.Core.JsonView
import Baulk.Path.Windows
import Baulk.Pkg.LinkMeta

/-!
# From a link to its target

`baulk-lnk` is the program behind every link of a package.  `ResolveTarget`
looks the name under which it was started up in the registry of links and
makes the path of the executable from the text that `LinkMetaStore` wrote.

The text is `name@path@version`, without any escape.  Both readers split it at
every `@` and skip empty pieces, so that it is read as it was meant exactly if
neither the name nor the path is empty or holds a `@`.
-/

namespace Baulk.Pkg

open Support (components components_append_cons components_of_forall_not_sep
  mem_components)

/-- `ResolveTarget`, started as `arg0`. -/
def resolveTarget (host : LinkHost) (arg0 : WString) (file : LinkFile) :
    Except ErrorCode WString := do
  let command := (WinPath.ofText arg0).filename
  let jv ← parseJsonFile host file
  match jv.subview linksKey with
  | none =>
      .error (ErrorCode.make ErrorCode.errGeneral
        (wide "link metadata no links"))
  | some sv =>
      let linkTarget := sv.get (encodeUtf8 command)
      match components (· == 0x40) linkTarget with
      | name :: path :: _ =>
          .ok (jv.get (narrow "app_packages_root") ++ wide "\\" ++ name ++
            wide "\\" ++ path)
      | _ =>
          .error (ErrorCode.make ErrorCode.errGeneral
            (wide "'" ++ command ++ wide "' not found. (" ++ linkTarget ++
              wide ") path:" ++ arg0))

/-! ## What is recorded -/

theorem addLinks_append (front back : List LinkMeta) (pkg : Package)
    (newLinks : Json) : addLinks (front ++ back) pkg newLinks =
      addLinks back pkg (addLinks front pkg newLinks) :=
  List.foldl_append

theorem find_addLinks (front : List LinkMeta) (lm : LinkMeta)
    {back : List LinkMeta} (pkg : Package) {newLinks : Json}
    (h : newLinks.IsMap)
    (hback : encodeUtf8 lm.aliasName ∉
      back.map fun later => encodeUtf8 later.aliasName) :
    (addLinks (front ++ lm :: back) pkg newLinks).find
      (encodeUtf8 lm.aliasName) = some (.string (linkText pkg lm)) := by
  have hfront := (addLinks_spec front pkg h).1
  rw [addLinks_append]
  change (addLinks back pkg ((addLinks front pkg newLinks).setMember
    (encodeUtf8 lm.aliasName) (.string (linkText pkg lm)))).find _ = _
  rw [(addLinks_spec back pkg (hfront.setMember _ _)).2 _ hback,
    hfront.find_setMember, if_pos rfl]

theorem oldLinks_isMap (obj : Json) : (oldLinks obj).IsMap := by
  unfold oldLinks
  split
  · exact .null
  · exact foldl_keepLink_isMap _ .null

theorem storedObject_root {host : LinkHost} {metas : List LinkMeta}
    {pkg : Package} {obj obj' : Json}
    (h : storedObject host metas pkg obj = .ok obj') :
    obj'.find (narrow "app_packages_root") =
      some (.string (encodeUtf8 host.appPackages)) := by
  unfold storedObject at h
  obtain ⟨obj₁, hlinks, h⟩ := bind_eq_ok_iff.mp h
  obtain ⟨obj₂, hupdated, hroot⟩ := bind_eq_ok_iff.mp h
  obtain ⟨hmap, rfl⟩ := Json.set_eq_ok_iff.mp hroot
  rw [hmap.find_setMember, if_pos rfl]

/-- What the readers find after a link was recorded. -/
structure Recorded (host : LinkHost) (pkg : Package) (lm : LinkMeta)
    (obj sv : Json) : Prop where
  links : obj.find linksKey = some sv
  text : sv.find (encodeUtf8 lm.aliasName) = some (.string (linkText pkg lm))
  root : obj.find (narrow "app_packages_root") =
    some (.string (encodeUtf8 host.appPackages))

theorem linkMetaStore_recorded {host : LinkHost} {front back : List LinkMeta}
    {lm : LinkMeta} {pkg : Package} {file file' : LinkFile}
    (h : linkMetaStore host (front ++ lm :: back) pkg file = (.ok (), file'))
    (hback : encodeUtf8 lm.aliasName ∉
      back.map fun later => encodeUtf8 later.aliasName) :
    ∃ obj sv, file' = .parsed obj ∧ Recorded host pkg lm obj sv := by
  unfold linkMetaStore at h
  rw [if_neg (by simp)] at h
  cases hstored : storedObject host (front ++ lm :: back) pkg
      (readLinks host file) with
  | error ec =>
      rw [hstored] at h
      cases h
  | ok obj =>
      rw [hstored] at h
      dsimp only at h
      rcases writeLinks_cases host obj file with
        ⟨-, -, hwrite⟩ | ⟨-, ec, hwrite⟩
      · rw [hwrite] at h
        cases h
        exact ⟨obj, _, rfl, storedObject_ok hstored,
          find_addLinks front lm pkg (oldLinks_isMap _) hback,
          storedObject_root hstored⟩
      · rw [hwrite] at h
        cases h

/-! ## What is read -/

/-- A name or a path that comes back from the text of a link. -/
def PlainPart (s : WString) : Prop :=
  s ≠ [] ∧ 0x40 ∉ s ∧ Paired s

instance (s : WString) : Decidable (PlainPart s) :=
  inferInstanceAs (Decidable (s ≠ [] ∧ 0x40 ∉ s ∧ Paired s))

/-- The first piece of a text is what stands before the first `@` exactly if
that is plain. -/
theorem components_pairedPart_iff {s t : WString} {rest : List WString} :
    components (· == 0x40) (pairedPart (s ++ 0x40 :: t)) = s :: rest ↔
      PlainPart s ∧ components (· == 0x40) (pairedPart t) = rest := by
  rw [pairedPart_append_cons (by decide) (by decide)]
  by_cases hpaired : Paired s
  · rw [if_pos hpaired, components_append_cons _ _ (by decide)]
    constructor
    · intro h
      have hmem : s ∈ components (· == 0x40) s ++
          components (· == 0x40) (pairedPart t) := by
        rw [h]
        exact List.mem_cons_self
      have hs : s ≠ [] ∧ ∀ x ∈ s, (x == 0x40) = false := by
        rcases List.mem_append.mp hmem with hmem | hmem
        · exact mem_components hmem
        · exact mem_components hmem
      rw [components_of_forall_not_sep hs.1 hs.2, List.singleton_append,
        List.cons.injEq] at h
      refine ⟨⟨hs.1, ?_, hpaired⟩, h.2⟩
      intro hat
      cases hs.2 _ hat
    · rintro ⟨⟨hne, hat, -⟩, rfl⟩
      have hsep : ∀ x ∈ s, (x == (0x40 : WChar)) = false := by
        intro x hx
        rw [beq_eq_false_iff_ne]
        rintro rfl
        exact hat hx
      rw [components_of_forall_not_sep hne hsep, List.singleton_append]
  · rw [if_neg hpaired]
    constructor
    · intro h
      have hmem : s ∈ components (· == 0x40) (pairedPart s) := by
        rw [h]
        exact List.mem_cons_self
      have hle := Support.length_le_of_mem_components hmem
      rcases pairedPart_cases s with hs | ⟨c, cut, -, hs⟩
      · exact absurd hs hpaired
      · have hlength := congrArg List.length hs
        rw [List.length_append, List.length_cons] at hlength
        omega
    · rintro ⟨⟨-, -, hs⟩, -⟩
      exact absurd hs hpaired

/-- The directory in front of a path is the one that was recorded exactly if it
comes back. -/
theorem pairedPart_append_inj {s x y : WString} :
    pairedPart s ++ 0x5C :: x = s ++ 0x5C :: y ↔ Paired s ∧ x = y := by
  constructor
  · intro h
    rcases pairedPart_cases s with hs | ⟨c, rest, hc, hs⟩
    · rw [hs, List.append_cancel_left_eq, List.cons.injEq] at h
      exact ⟨hs, h.2⟩
    · rw [show s ++ 0x5C :: y = pairedPart s ++ (c :: rest ++ 0x5C :: y) by
        rw [← List.append_assoc, ← hs], List.append_cancel_left_eq,
        List.cons_append, List.cons.injEq] at h
      rw [← h.1] at hc
      cases hc
  · rintro ⟨hs, rfl⟩
    rw [hs]

theorem encodeUtf16_linkText (pkg : Package) (lm : LinkMeta) :
    encodeUtf16 (linkText pkg lm) =
      pairedPart (pkg.name ++ 0x40 :: (lm.path ++ 0x40 :: pkg.version)) := by
  rw [linkText, encodeUtf16_encodeUtf8, show wide "@" = [0x40] from rfl]
  simp only [List.append_assoc, List.cons_append, List.nil_append]

theorem linkOwner_eq_some_iff {raw : Bytes} {owner : WString} :
    linkOwner raw = some owner ↔
      ∃ path rest, linkParts raw = owner :: path :: rest := by
  unfold linkOwner
  split
  · rename_i name path rest hparts
    rw [hparts]
    constructor
    · intro h
      cases h
      exact ⟨path, rest, rfl⟩
    · rintro ⟨path', rest', h⟩
      cases h
      rfl
  · rename_i hother
    constructor
    · nofun
    · rintro ⟨path, rest, h⟩
      exact absurd h (hother owner path rest)

theorem resolveTarget_recorded {host reader : LinkHost} {pkg : Package}
    {lm : LinkMeta} {obj sv : Json} (h : Recorded host pkg lm obj sv)
    (hopen : reader.openError = none) {arg0 : WString}
    (harg0 : (WinPath.ofText arg0).filename = lm.aliasName) {target : WString} :
    resolveTarget reader arg0 (.parsed obj) = .ok target ↔
      ∃ name path rest, linkParts (linkText pkg lm) = name :: path :: rest ∧
        target = pairedPart host.appPackages ++ wide "\\" ++ name ++
          wide "\\" ++ path := by
  have hread : parseJsonFile reader (.parsed obj) = .ok obj := by
    unfold parseJsonFile
    rw [hopen]
  unfold resolveTarget
  rw [hread]
  simp only [bind, Except.bind, Json.subview_of_find h.links h.text, harg0,
    Json.get_of_find [] h.text, Json.get_of_find [] h.root,
    encodeUtf16_encodeUtf8 host.appPackages]
  change _ ↔ ∃ name path rest,
    components (· == 0x40) (encodeUtf16 (linkText pkg lm)) =
      name :: path :: rest ∧ _
  split
  · rename_i name path rest hparts
    rw [hparts, Except.ok.injEq]
    constructor
    · rintro rfl
      exact ⟨name, path, rest, rfl, rfl⟩
    · rintro ⟨name', path', rest', hparts', rfl⟩
      cases hparts'
      rfl
  · rename_i hother
    constructor
    · nofun
    · rintro ⟨name, path, rest, hparts, -⟩
      exact absurd hparts (hother name path rest)

/-- The texts of a link are read as they were meant exactly if the name and the
path of it are plain and the directory of the packages comes back. -/
theorem resolveTarget_stored_iff {host reader : LinkHost}
    {front back : List LinkMeta} {lm : LinkMeta} {pkg : Package}
    {file file' : LinkFile}
    (hstore : linkMetaStore host (front ++ lm :: back) pkg file =
      (.ok (), file'))
    (hback : encodeUtf8 lm.aliasName ∉
      back.map fun later => encodeUtf8 later.aliasName)
    (hopen : reader.openError = none) {arg0 : WString}
    (harg0 : (WinPath.ofText arg0).filename = lm.aliasName) :
    (resolveTarget reader arg0 file' =
        .ok (host.appPackages ++ wide "\\" ++ pkg.name ++ wide "\\" ++
          lm.path) ∧
      (file'.entry (encodeUtf8 lm.aliasName)).bind linkOwner =
        some pkg.name) ↔
      PlainPart pkg.name ∧ PlainPart lm.path ∧ Paired host.appPackages := by
  obtain ⟨obj, sv, rfl, hrecorded⟩ := linkMetaStore_recorded hstore hback
  have hentry : (LinkFile.parsed obj).entry (encodeUtf8 lm.aliasName) =
      some (linkText pkg lm) := by
    rw [entry_parsed hrecorded.links, stringAt_eq_some_iff]
    exact hrecorded.text
  rw [resolveTarget_recorded hrecorded hopen harg0, hentry, Option.bind_some,
    linkOwner_eq_some_iff, linkParts, encodeUtf16_linkText]
  constructor
  · rintro ⟨⟨name, path, rest, hparts, htarget⟩, path', rest', hparts'⟩
    rw [hparts'] at hparts
    cases hparts
    obtain ⟨hname, hrest⟩ := components_pairedPart_iff.mp hparts'
    have hdirs := htarget.symm
    simp only [show wide "\\" = [0x5C] from rfl, List.append_assoc,
      List.cons_append, List.nil_append] at hdirs
    obtain ⟨hroot, hpath⟩ := pairedPart_append_inj.mp hdirs
    rw [List.append_cancel_left_eq, List.cons.injEq] at hpath
    rw [hpath.2] at hrest
    exact ⟨hname, (components_pairedPart_iff.mp hrest).1, hroot⟩
  · rintro ⟨hname, hpath, hroot⟩
    have hparts := components_pairedPart_iff.mpr ⟨hname,
      components_pairedPart_iff.mpr
        ⟨hpath, (rfl : components (· == 0x40) (pairedPart pkg.version) = _)⟩⟩
    refine ⟨⟨pkg.name, lm.path, _, hparts, ?_⟩, lm.path, _, hparts⟩
    rw [hroot]

/-! ### An executable as a package -/

/-- Where the packages are. -/
def linkHost : LinkHost where
  now := []
  appLinks := wide "C:\\links"
  appPackages := wide "C:\\pkgs"

/-- A package whose archive is its executable. -/
def exePackage : Package :=
  { name := wide "tool", version := wide "1.0" }

/-- The link that is made for the executable. -/
def exeLink (exefile : WString) : LinkMeta :=
  ⟨exefile, exefile⟩

/-- The registry with the link of an executable. -/
def exeFile (exefile : WString) : LinkFile :=
  (linkMetaStore linkHost [exeLink exefile] exePackage .missing).2

theorem resolveTarget_stored_tool :
    resolveTarget linkHost (wide "C:\\links\\tool.exe")
        (exeFile (wide "tool.exe")) =
      .ok (wide "C:\\pkgs\\tool\\tool.exe") ∧
      ((exeFile (wide "tool.exe")).entry (encodeUtf8 (wide "tool.exe"))).bind
        linkOwner = some (wide "tool") := by
  have hstore : linkMetaStore linkHost ([] ++ exeLink (wide "tool.exe") :: [])
      exePackage .missing = (.ok (), exeFile (wide "tool.exe")) := rfl
  have hreader : linkHost.openError = none := rfl
  refine (resolveTarget_stored_iff hstore (by simp) hreader ?_).mpr ?_
  · decide
  · decide

/-- The name of an executable may hold a `@`: the link leads to a file that the
package does not have. -/
theorem resolveTarget_stored_at :
    linkMetaStore linkHost [exeLink (wide "tool@x64.exe")] exePackage .missing =
        (.ok (), exeFile (wide "tool@x64.exe")) ∧
      resolveTarget linkHost (wide "C:\\links\\tool@x64.exe")
          (exeFile (wide "tool@x64.exe")) =
        .ok (wide "C:\\pkgs\\tool\\tool") ∧
      wide "C:\\pkgs\\tool\\tool" ≠
        linkHost.appPackages ++ wide "\\" ++ exePackage.name ++ wide "\\" ++
          (exeLink (wide "tool@x64.exe")).path := by
  refine ⟨rfl, ?_, ?_⟩
  · decide
  · decide

end Baulk.Pkg
