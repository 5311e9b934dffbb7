import Baulk.Net.Delivery
import Baulk.Net.FileName
import Baulk.Path.Child

/-!
# Where a download is saved

The destination is chosen by the options or the URL, then by the redirect, then
by the header, and last by the files that are there.  A download changes no file
but the one it returns and the partial file, so the choice is all that counts.
-/

namespace Baulk.Net

open FilePart WinPath

/-! ## The files that a download changes -/

/-- Calls on an open file keep its name and every other file. -/
structure Handled (part : FilePart) (disk : Disk) (part' : FilePart)
    (disk' : Disk) : Prop where
  path_eq : part'.path = part.path
  fsPath_eq : part'.fsPath = part.fsPath
  frame : ∀ key, key ≠ part.path → disk'.files key = disk.files key
  present : (disk.files part.path).isSome → (disk'.files part.path).isSome

theorem Handled.of_files {part part' : FilePart} {disk disk' : Disk}
    (hpath : part'.path = part.path) (hfsPath : part'.fsPath = part.fsPath)
    (hfiles : disk'.files = disk.files) : Handled part disk part' disk' where
  path_eq := hpath
  fsPath_eq := hfsPath
  frame := fun key _ => congrFun hfiles key
  present := fun h => by rwa [hfiles]

theorem Handled.of_put {part part' : FilePart} {disk disk' : Disk}
    {content : Bytes} (hpath : part'.path = part.path)
    (hfsPath : part'.fsPath = part.fsPath)
    (hfiles : disk'.files = (disk.put part.path (some content)).files) :
    Handled part disk part' disk' where
  path_eq := hpath
  fsPath_eq := hfsPath
  frame := fun key hkey => by rw [hfiles, Disk.put_files_ne hkey]
  present := fun _ => by rw [hfiles, Disk.put_files_self, Option.isSome_some]

theorem Handled.trans {part part₁ part' : FilePart} {disk disk₁ disk' : Disk}
    (h : Handled part disk part₁ disk₁) (h' : Handled part₁ disk₁ part' disk') :
    Handled part disk part' disk' where
  path_eq := h'.path_eq.trans h.path_eq
  fsPath_eq := h'.fsPath_eq.trans h.fsPath_eq
  frame := fun key hkey =>
    (h'.frame key (h.path_eq ▸ hkey)).trans (h.frame key hkey)
  present := fun hsome => by
    have hpresent := h'.present
    rw [h.path_eq] at hpresent
    exact hpresent (h.present hsome)

theorem seek_handled {env : DiskEnv} {pos : Int64} {part part' : FilePart}
    {disk disk' : Disk} (h : part.seek env pos disk = (.ok part', disk')) :
    Handled part disk part' disk' := by
  obtain ⟨rfl, hfiles⟩ := seek_ok h
  exact .of_files rfl rfl hfiles

theorem truncatedFile_handled {env : DiskEnv} {pos : Int64}
    {part part' : FilePart} {disk disk' : Disk}
    (h : part.truncatedFile env pos disk = (.ok part', disk')) :
    Handled part disk part' disk' := by
  unfold truncatedFile at h
  split at h
  · cases h
  rename_i part₁ disk₁ hseek
  split at h
  · cases h
  cases h
  exact (seek_handled hseek).trans (.of_put rfl rfl rfl)

theorem truncated_handled {env : DiskEnv} {part part' : FilePart}
    {disk disk' : Disk} (h : part.truncated env disk = (.ok part', disk')) :
    Handled part disk part' disk' := by
  unfold truncated at h
  split at h
  · cases h
  rename_i part₁ disk₁ htruncate
  cases h
  exact (truncatedFile_handled htruncate).trans (.of_files rfl rfl rfl)

theorem startOver_handled {env : DiskEnv} {part part' : FilePart}
    {disk disk' : Disk} (h : part.startOver env disk = (.ok part', disk')) :
    Handled part disk part' disk' := by
  unfold startOver at h
  split at h
  · cases h
    exact .of_files rfl rfl rfl
  · exact truncatedFile_handled h

theorem resume_handled {env : DiskEnv} {spec : HashSpec} {part part' : FilePart}
    {disk disk' : Disk} (h : part.resume env spec disk = (.ok part', disk')) :
    Handled part disk part' disk' := by
  unfold resume at h
  dsimp only at h
  split at h
  · rename_i disk₁ hseek
    have hfiles : Handled part disk part disk₁ :=
      .of_files rfl rfl (seek_files hseek)
    exact hfiles.trans (startOver_handled h)
  rename_i atOverlay disk₁ hseek
  have hsought := seek_handled hseek
  have hread : Handled part disk atOverlay disk₁.call :=
    hsought.trans (.of_files rfl rfl rfl)
  split at h
  · exact hread.trans (startOver_handled h)
  split at h
  · exact hread.trans (startOver_handled h)
  split at h
  · cases h
  rename_i part₂ disk₂ htruncate
  cases h
  have hfiles : disk₁.files = disk.files := seek_files hseek
  have hcalled : Handled part disk part disk₁.call := .of_files rfl rfl hfiles
  have hcut := hcalled.trans (truncatedFile_handled htruncate)
  exact hcut.trans (.of_files rfl rfl rfl)

theorem makeFilePart_handled {env : DiskEnv} {p : WinPath} {hashValue : WString}
    {part : FilePart} {disk disk' : Disk}
    (h : makeFilePart env p hashValue disk = (.ok part, disk')) :
    Handled { path := partPath env p, fsPath := WinPath.absolute env.dirs p }
      (disk.put (partPath env p) (some (disk.content (partPath env p))))
      part disk' := by
  unfold makeFilePart at h
  dsimp only at h
  split at h
  · cases h
  split at h
  · cases h
  rename_i fileSize disk₁ hsize
  have hsized : Handled
      { path := partPath env p, fsPath := WinPath.absolute env.dirs p }
      (disk.put (partPath env p) (some (disk.content (partPath env p))))
      { path := partPath env p, fsPath := WinPath.absolute env.dirs p } disk₁ :=
    .of_files rfl rfl (size_ok hsize).2
  split at h
  · exact hsized.trans (startOver_handled h)
  split at h
  · exact hsized.trans (startOver_handled h)
  · exact hsized.trans (resume_handled h)

theorem writeLoop_handled {env : DiskEnv} {calls : Nat} {bytes : Bytes}
    {part : FilePart} {disk : Disk} :
    Handled part disk (part.writeLoop env calls bytes disk).2.1
      (part.writeLoop env calls bytes disk).2.2 := by
  induction calls generalizing bytes part disk with
  | zero => exact .of_files rfl rfl rfl
  | succ calls ih =>
      unfold writeLoop writeFile
      cases env.fault disk.calls with
      | some e => exact .of_files rfl rfl rfl
      | none =>
          dsimp only
          split
          · refine Handled.trans ?_ ih
            exact .of_put rfl rfl rfl
          · exact .of_put rfl rfl rfl

theorem receive_handled {env : DiskEnv} {rounds : List Round}
    {currentBytes : Int64} {part : FilePart} {disk : Disk} {got : Received}
    (h : receive env rounds currentBytes part disk = some got) :
    Handled part disk got.part got.disk := by
  induction rounds generalizing currentBytes part disk with
  | nil => cases h
  | cons round rounds ih =>
      cases round with
      | unavailable e =>
          cases h
          exact .of_files rfl rfl rfl
      | unread announced e =>
          cases h
          exact .of_files rfl rfl rfl
      | received announced bytes le =>
          unfold receive at h
          dsimp only at h
          split at h
          · exact writeLoop_handled.trans (ih h)
          · cases h
            exact writeLoop_handled

theorem fileDiscard_frame (env : DiskEnv) (part : FilePart) (disk : Disk)
    {key : WString} (hkey : key ≠ part.path) :
    (part.fileDiscard env disk).files key = disk.files key := by
  unfold fileDiscard
  split
  · by_cases hremovable : Removable env disk.calls
    · rw [(dispositionFileHandle_files env part.path disk).1 hremovable,
        Disk.put_files_ne hkey]
    · rw [(dispositionFileHandle_files env part.path disk).2 hremovable]
  · rfl

theorem solidified_frame (env : DiskEnv) (part : FilePart) (disk : Disk)
    {key : WString} (hkey : key ≠ part.path)
    (hpath : key ≠ fileKey env part.fsPath) :
    (part.solidified env disk).2.1.path = part.path ∧
      (part.solidified env disk).2.2.files key = disk.files key := by
  unfold solidified
  split
  · exact ⟨rfl, rfl⟩
  · cases env.fault disk.calls with
    | some e => exact ⟨rfl, rfl⟩
    | none =>
        refine ⟨rfl, ?_⟩
        dsimp only
        rw [Disk.put_files_ne hpath, Disk.put_files_ne hkey]
        rfl

/-! ## The choice -/

/-- How a transfer was prepared: the name of the partial file, the choice of the
destination, and the files. -/
structure Chosen (env : DiskEnv) (opts : DownloadOptions) (x : Exchange)
    (disk : Disk) (filename : WString) (r : MinimalResponse) (t : Transfer)
    (disk₁ disk₀ : Disk) : Prop where
  filename_eq : x.filename = .ok filename
  response_eq : x.response = .ok r
  opened : Handled
    { path := partPath env (makeDestination opts filename)
      fsPath := WinPath.absolute env.dirs (makeDestination opts filename) }
    (disk.put (partPath env (makeDestination opts filename))
      (some (disk.content (partPath env (makeDestination opts filename)))))
    { t.part with fsPath := WinPath.absolute env.dirs (makeDestination opts filename) }
    disk₁
  named : makeDestinationDecorous env
    (answeredDestination opts x r (makeDestination opts filename))
    opts.overwriteExists disk₁ = .ok t.destination
  fsPath_eq : t.part.fsPath = t.destination
  frame : ∀ key, key ≠ t.part.path → disk₀.files key = disk₁.files key

theorem accept_ok {env : DiskEnv} {opts : DownloadOptions} {r : MinimalResponse}
    {destination : WinPath} {part : FilePart} {disk disk' : Disk} {t : Transfer}
    (h : accept env opts r destination part disk = (.ok t, disk')) :
    t.destination = destination ∧
      Handled (part.renameTo destination) disk t.part disk' := by
  unfold accept at h
  dsimp only at h
  split at h
  · cases h
  split at h
  · split at h
    · cases h
    · rename_i htruncate
      cases h
      exact ⟨rfl, truncated_handled htruncate⟩
  · cases h
    exact ⟨rfl, .of_files rfl rfl rfl⟩

theorem prepare_chosen {env : DiskEnv} {opts : DownloadOptions} {x : Exchange}
    {disk disk₀ : Disk} {t : Transfer}
    (h : prepare env opts x disk = (.ok t, disk₀)) :
    ∃ filename r disk₁, Chosen env opts x disk filename r t disk₁ disk₀ := by
  unfold prepare at h
  split at h
  · cases h
  rename_i filename hfilename
  dsimp only at h
  split at h
  · cases h
  rename_i part disk₁ hmake
  unfold request at h
  split at h
  · cases h
  · cases h
  · cases h
  rename_i r hheaders hbody hresponse
  split at h
  · cases h
  rename_i destination hnamed
  obtain ⟨rfl, haccept⟩ := accept_ok h
  have hopened := makeFilePart_handled hmake
  refine ⟨filename, r, disk₁, hfilename, hresponse, ?_, hnamed, haccept.fsPath_eq, ?_⟩
  · exact ⟨haccept.path_eq.trans hopened.path_eq, rfl, hopened.frame, hopened.present⟩
  · intro key hkey
    exact haccept.frame key (haccept.path_eq ▸ hkey)

theorem Chosen.path_eq {env : DiskEnv} {opts : DownloadOptions} {x : Exchange}
    {disk disk₁ disk₀ : Disk} {filename : WString} {r : MinimalResponse}
    {t : Transfer} (h : Chosen env opts x disk filename r t disk₁ disk₀) :
    t.part.path = partPath env (makeDestination opts filename) :=
  h.opened.path_eq

theorem Chosen.fileExists_iff {env : DiskEnv} {opts : DownloadOptions}
    {x : Exchange} {disk disk₁ disk₀ : Disk} {filename : WString}
    {r : MinimalResponse} {t : Transfer}
    (h : Chosen env opts x disk filename r t disk₁ disk₀) (p : WinPath) :
    fileExists env p disk₁ = true ↔ fileExists env p disk = true ∨
      fileKey env p = partPath env (makeDestination opts filename) := by
  unfold fileExists
  by_cases hkey : fileKey env p = partPath env (makeDestination opts filename)
  · refine iff_of_true ?_ (.inr hkey)
    rw [hkey]
    exact h.opened.present (by rw [Disk.put_files_self, Option.isSome_some])
  · rw [or_iff_left hkey, h.opened.frame _ hkey, Disk.put_files_ne hkey]

/-- A download changes no file but the one it returns and the partial file. -/
theorem winGet_frame {env : DiskEnv} {opts : DownloadOptions} {x : Exchange}
    {disk disk' : Disk} {path : WinPath} {filename : WString}
    (hfilename : x.filename = .ok filename)
    (h : winGet env opts x disk = some (.ok path, disk')) {key : WString}
    (hpart : key ≠ partPath env (makeDestination opts filename))
    (hkey : key ≠ fileKey env path) : disk'.files key = disk.files key := by
  unfold winGet at h
  split at h
  · cases h
  rename_i t disk₀ hprepare
  obtain ⟨filename', r, disk₁, hchosen⟩ := prepare_chosen hprepare
  obtain rfl : filename = filename' :=
    Except.ok.inj (hfilename.symm.trans hchosen.filename_eq)
  obtain ⟨got, hgot, -, rfl, rfl⟩ := run_ok h
  have hreceived := receive_handled hgot
  have hpath : got.part.path = partPath env (makeDestination opts filename) :=
    hreceived.path_eq.trans hchosen.path_eq
  have hplace : got.part.fsPath = t.destination :=
    hreceived.fsPath_eq.trans hchosen.fsPath_eq
  rw [← hpath] at hpart
  obtain ⟨hsolid, hframe⟩ :=
    solidified_frame env got.part got.disk hpart (hplace ▸ hkey)
  rw [fileDiscard_frame env _ _ (hsolid ▸ hpart), hframe]
  have hpart' : key ≠ t.part.path := hreceived.path_eq ▸ hpart
  rw [hreceived.frame key hpart', hchosen.frame key hpart',
    hchosen.opened.frame key (hchosen.path_eq ▸ hpart'),
    Disk.put_files_ne (hchosen.path_eq ▸ hpart')]

/-! ## A destination of the options -/

/-- The file is saved at the destination of the options or, if that exists and
may not be overwritten, at a free sibling, and no other file changes. -/
structure SavedAsAsked (env : DiskEnv) (opts : DownloadOptions) (disk : Disk)
    (path : WinPath) (disk' : Disk) : Prop where
  place : fileKey env path = fileKey env opts.destination ∨
    opts.overwriteExists = false ∧ fileExists env opts.destination disk = true ∧
      fileExists env path disk = false ∧
      path.parentPath = opts.destination.parentPath ∧
      extension path.filename = extension opts.destination.filename
  only : ∀ key, key ≠ partPath env opts.destination → key ≠ fileKey env path →
    disk'.files key = disk.files key

theorem makeDestinationDecorous_overwrite {env : DiskEnv} {destination : WinPath}
    {disk : Disk} :
    makeDestinationDecorous env destination true disk = .ok destination := by
  unfold makeDestinationDecorous
  split
  · rfl
  · rfl

/-- The destination of the options is the one that is used exactly if there is no
redirect to another one. -/
theorem winGet_explicit_iff {env : DiskEnv} {opts : DownloadOptions}
    {x : Exchange} {disk disk' : Disk} {path : WinPath}
    (hdestination : opts.destination.isEmpty = false)
    (h : winGet env opts x disk = some (.ok path, disk')) :
    SavedAsAsked env opts disk path disk' ↔
      ∀ name, x.location = some name →
        fileKey env (opts.cwd.append (.ofText name)) =
          fileKey env opts.destination := by
  have hoverwrite : opts.overwriteExists = true := by
    unfold DownloadOptions.overwriteExists
    rw [hdestination, Bool.not_false, Bool.or_true]
  have hmake : ∀ filename, makeDestination opts filename = opts.destination := by
    intro filename
    unfold makeDestination
    rw [hdestination]
    rfl
  have hrun := h
  unfold winGet at hrun
  split at hrun
  · cases hrun
  rename_i t disk₀ hprepare
  obtain ⟨filename, r, disk₁, hchosen⟩ := prepare_chosen hprepare
  obtain ⟨got, -, -, hpath, -⟩ := run_ok hrun
  have hanswered : path = answeredDestination opts x r opts.destination := by
    have hnamed := hchosen.named
    rw [hmake, hoverwrite, makeDestinationDecorous_overwrite] at hnamed
    exact hpath.trans (Except.ok.inj hnamed).symm
  have honly := @winGet_frame _ _ _ _ _ _ _ hchosen.filename_eq h
  rw [hmake] at honly
  have hplace : SavedAsAsked env opts disk path disk' ↔
      fileKey env path = fileKey env opts.destination := by
    constructor
    · intro hsaved
      rcases hsaved.place with heq | ⟨hnot, -⟩
      · exact heq
      · exact absurd (hoverwrite.symm.trans hnot) (by decide)
    · intro heq
      exact ⟨.inl heq, fun key hpart hkey => honly hpart hkey⟩
  rw [hplace, hanswered]
  unfold answeredDestination
  rw [hdestination]
  cases hlocation : x.location with
  | none => simp
  | some name => simp

/-- The download of `a` to `C:\b`. -/
def explicitOptions : DownloadOptions :=
  { letterOptions with destination := .ofText (wide "C:\\b") }

/-- The server redirects to `c`. -/
def redirectedExchange : Exchange :=
  { letterExchange with location := some (wide "c") }

/-- The file is saved under the name of the location, which is not the one that
was asked for. -/
theorem redirectedExchange_elsewhere :
    ∃ path disk', winGet reliableEnv explicitOptions redirectedExchange emptyDisk =
        some (.ok path, disk') ∧
      ¬ SavedAsAsked reliableEnv explicitOptions emptyDisk path disk' := by
  have hrun : ((winGet reliableEnv explicitOptions redirectedExchange
      emptyDisk).bind fun result => result.1.toOption.map (fileKey reliableEnv)) =
        some (wide "C:\\c") ∧
      fileKey reliableEnv explicitOptions.destination = wide "C:\\b" ∧
      explicitOptions.overwriteExists = true := by
    decide +kernel
  obtain ⟨hpath, hasked, hoverwrite⟩ := hrun
  rcases hresult : winGet reliableEnv explicitOptions redirectedExchange
    emptyDisk with _ | ⟨_ | path, disk'⟩
  · rw [hresult] at hpath
    cases hpath
  · rw [hresult] at hpath
    cases hpath
  · rw [hresult] at hpath
    have hkey : fileKey reliableEnv path = wide "C:\\c" := Option.some.inj hpath
    refine ⟨path, disk', rfl, fun hsaved => ?_⟩
    rcases hsaved.place with heq | ⟨hnot, -⟩
    · rw [hkey, hasked] at heq
      exact absurd heq (by decide)
    · rw [hoverwrite] at hnot
      cases hnot

theorem winGet_explicit_iff_direct :
    ∃ path disk', winGet reliableEnv explicitOptions letterExchange emptyDisk =
        some (.ok path, disk') ∧
      SavedAsAsked reliableEnv explicitOptions emptyDisk path disk' := by
  have hrun : ((winGet reliableEnv explicitOptions letterExchange emptyDisk).bind
      fun result => result.1.toOption).isSome = true ∧
      explicitOptions.destination.isEmpty = false := by
    decide +kernel
  rcases hresult : winGet reliableEnv explicitOptions letterExchange
    emptyDisk with _ | ⟨_ | path, disk'⟩
  · rw [hresult] at hrun
    cases hrun.1
  · rw [hresult] at hrun
    cases hrun.1
  · refine ⟨path, disk', rfl, (winGet_explicit_iff hrun.2 hresult).mpr ?_⟩
    intro name hname
    cases hname

/-! ## A destination of the server -/

/-- The texts from which the names of a download are read: the path of the URL,
that of the location, and the headers of the response. -/
structure NamesRead (x : Exchange) (urlPath : WString)
    (locationPath : Option WString) (hkv : Headers) : Prop where
  filename : x.filename = .ok (decodedUrlPathName urlPath)
  location : x.location = locationPath.map decodedUrlPathName
  disposition : ∀ r, x.response = .ok r → r.dispositionName = extractFilename hkv

/-- The name that counts: that of the header, of the location, or of the URL. -/
def answeredName (urlPath : WString) (locationPath : Option WString)
    (hkv : Headers) : WString :=
  (extractFilename hkv).getD
    ((locationPath.map decodedUrlPathName).getD (decodedUrlPathName urlPath))

/-- The partial file is the one of a file directly in the folder, and so is the
destination. -/
structure Confined (env : DiskEnv) (opts : DownloadOptions) (urlPath : WString)
    (t : Transfer) : Prop where
  part_eq : t.part.path =
    partPath env (opts.cwd.append (.ofText (decodedUrlPathName urlPath)))
  part : ChildOf opts.cwd (opts.cwd.append (.ofText (decodedUrlPathName urlPath)))
  destination : ChildOf opts.cwd t.destination

/-- The name has to be changed, since there is a file already. -/
def Clashes (env : DiskEnv) (opts : DownloadOptions) (urlPath : WString)
    (answered : WinPath) (disk : Disk) : Prop :=
  opts.forceOverwrite = false ∧
    (fileExists env answered disk = true ∨ fileKey env answered =
      partPath env (opts.cwd.append (.ofText (decodedUrlPathName urlPath))))

theorem sibling_childOf_iff {cwd p : WinPath} (i : Nat) :
    ChildOf cwd (sibling p i) ↔ RenamedChild cwd p := by
  have hmark : sibling p i = p.parentPath.append (.ofText
      (removeExtension p.filename ++
        (wide "-(" ++ wide (Nat.repr i) ++ wide ")" ++ extension p.filename))) := by
    unfold sibling
    simp only [List.append_assoc]
    rfl
  rw [hmark]
  apply childOf_renamed_iff
  · intro x hx
    simp only [List.mem_append] at hx
    rcases hx with ((hx | hx) | hx) | hx
    · rcases List.mem_pair.mp hx with rfl | rfl
      · rfl
      · rfl
    · have hdigit := digit_of_mem_repr hx
      have hslash : x ≠ 0x5C := fun h => absurd (h ▸ hdigit.2) (by decide)
      have hback : x ≠ 0x2F := fun h => absurd (h ▸ hdigit.1) (by decide)
      simp [isPathSeparator, hslash, hback]
    · rw [List.mem_singleton.mp hx]
      rfl
    · exact p.filename_noSep x (mem_of_mem_extension hx)
  · rfl

/-- A name that is free stays, and one that is not is changed. -/
theorem makeDestinationDecorous_childOf {env : DiskEnv} {cwd p destination : WinPath}
    {forceOverwrite : Bool} {disk : Disk}
    (h : makeDestinationDecorous env p forceOverwrite disk = .ok destination) :
    ChildOf cwd destination ↔
      if forceOverwrite = false ∧ fileExists env p disk = true then
        RenamedChild cwd p
      else ChildOf cwd p := by
  unfold makeDestinationDecorous at h
  split at h
  · rename_i hfree
    rw [← Except.ok.inj h, if_neg fun hnot => by simp [hnot.2] at hfree]
  · rename_i htaken
    split at h
    · rename_i hforce
      rw [← Except.ok.inj h, if_neg fun hnot => by simp [hnot.1] at hforce]
    · rename_i hforce
      rw [if_pos ⟨by simpa using hforce, by simpa using htaken⟩]
      split at h
      · rename_i newPath hfind
        obtain ⟨i, -, hi⟩ := List.mem_map.mp (List.mem_of_find?_eq_some hfind)
        rw [← Except.ok.inj h, ← hi]
        exact sibling_childOf_iff i
      · cases h

/-- The files are directly in the folder exactly if the names are such. -/
theorem prepare_confined_iff {env : DiskEnv} {opts : DownloadOptions}
    {x : Exchange} {disk disk₀ : Disk} {t : Transfer} {urlPath : WString}
    {locationPath : Option WString} {hkv : Headers}
    (hdestination : opts.destination.isEmpty = true)
    (hread : NamesRead x urlPath locationPath hkv)
    (h : prepare env opts x disk = (.ok t, disk₀)) :
    let name := answeredName urlPath locationPath hkv
    let answered := opts.cwd.append (.ofText name)
    Confined env opts urlPath t ↔
      NamesChild opts.cwd (.ofText (decodedUrlPathName urlPath)) ∧
        (Clashes env opts urlPath answered disk → RenamedChild opts.cwd answered) ∧
        (¬ Clashes env opts urlPath answered disk →
          NamesChild opts.cwd (.ofText name)) := by
  intro name answered
  obtain ⟨filename, r, disk₁, hchosen⟩ := prepare_chosen h
  obtain rfl : decodedUrlPathName urlPath = filename :=
    Except.ok.inj (hread.filename.symm.trans hchosen.filename_eq)
  have hmake : makeDestination opts (decodedUrlPathName urlPath) =
      opts.cwd.append (.ofText (decodedUrlPathName urlPath)) := by
    unfold makeDestination
    rw [hdestination]
    rfl
  have hanswered : answeredDestination opts x r
      (makeDestination opts (decodedUrlPathName urlPath)) = answered := by
    unfold answeredDestination
    rw [hdestination, hread.disposition r hchosen.response_eq, hread.location, hmake]
    change _ = opts.cwd.append (.ofText (answeredName urlPath locationPath hkv))
    unfold answeredName
    cases extractFilename hkv with
    | some name => rfl
    | none =>
        cases locationPath with
        | none => rfl
        | some path => rfl
  have hoverwrite : opts.overwriteExists = opts.forceOverwrite := by
    unfold DownloadOptions.overwriteExists
    rw [hdestination, Bool.not_true, Bool.or_false]
  have hnamed := hchosen.named
  rw [hanswered, hoverwrite] at hnamed
  have hpath := hchosen.path_eq
  rw [hmake] at hpath
  have hclash : opts.forceOverwrite = false ∧ fileExists env answered disk₁ = true ↔
      Clashes env opts urlPath answered disk := by
    rw [hchosen.fileExists_iff, hmake]
    rfl
  have hchild := @makeDestinationDecorous_childOf env opts.cwd _ _ _ _ hnamed
  have hconfined : Confined env opts urlPath t ↔
      ChildOf opts.cwd (opts.cwd.append (.ofText (decodedUrlPathName urlPath))) ∧
        ChildOf opts.cwd t.destination := by
    constructor
    · exact fun hc => ⟨hc.part, hc.destination⟩
    · exact fun hc => ⟨hpath, hc.1, hc.2⟩
  rw [hconfined, childOf_append_iff, hchild]
  apply and_congr_right'
  by_cases hyes : Clashes env opts urlPath answered disk
  · rw [if_pos (hclash.mpr hyes), imp_iff_right hyes,
      and_iff_left fun hnot => absurd hyes hnot]
  · rw [if_neg (mt hclash.mp hyes), imp_iff_right hyes,
      and_iff_right fun hnot => absurd hnot hyes]
    exact childOf_append_iff

/-- The download into `C:\dl`. -/
def folderOptions : DownloadOptions :=
  { letterOptions with cwd := .ofText (wide "C:\\dl") }

/-- The last part of the path is `..\x` when it is decoded. -/
def climbingExchange : Exchange :=
  { letterExchange with
    filename := .ok (decodedUrlPathName (wide "/%2e%2e%5cx")) }

/-- The files are outside of the folder. -/
theorem climbingExchange_escapes :
    NamesRead climbingExchange (wide "/%2e%2e%5cx") none [] ∧
      ∃ t disk₀, prepare reliableEnv folderOptions climbingExchange emptyDisk =
          (.ok t, disk₀) ∧
        ¬ Confined reliableEnv folderOptions (wide "/%2e%2e%5cx") t := by
  have hrun : (prepare reliableEnv folderOptions climbingExchange
      emptyDisk).1.toOption.isSome = true ∧
      (folderOptions.cwd.append (.ofText
        (decodedUrlPathName (wide "/%2e%2e%5cx")))).parts.length = 3 ∧
      folderOptions.cwd.parts.length = 1 := by
    decide +kernel
  obtain ⟨hsome, hparts, hfolder⟩ := hrun
  refine ⟨⟨rfl, rfl, ?_⟩, ?_⟩
  · intro r hr
    cases hr
    rfl
  rcases hresult : prepare reliableEnv folderOptions climbingExchange
    emptyDisk with ⟨_ | t, disk₀⟩
  · rw [hresult] at hsome
    cases hsome
  · refine ⟨t, disk₀, rfl, fun hconfined => ?_⟩
    obtain ⟨-, -, -, c, -, -, hconcat⟩ := childOf_iff.mp hconfined.part
    rw [hconcat, List.length_append, hfolder] at hparts
    cases hparts

theorem prepare_confined_iff_letter :
    ∃ t disk₀, prepare reliableEnv folderOptions letterExchange emptyDisk =
        (.ok t, disk₀) ∧
      Confined reliableEnv folderOptions (wide "/a") t := by
  have hrun : (prepare reliableEnv folderOptions letterExchange
      emptyDisk).1.toOption.isSome = true ∧
      folderOptions.destination.isEmpty = true ∧
      decodedUrlPathName (wide "/a") = wide "a" ∧
      fileKey reliableEnv (folderOptions.cwd.append (.ofText (wide "a"))) ≠
        partPath reliableEnv (folderOptions.cwd.append (.ofText (wide "a"))) ∧
      (ofText (wide "a")).rootName = [] ∧ (ofText (wide "a")).rootDir = false ∧
      (ofText (wide "a")).parts = [wide "a"] ∧
      (ofText (wide "a")).trailing = false := by
    decide +kernel
  obtain ⟨hsome, hdestination, hname, hkey, hroot, hdir, hparts, htrailing⟩ := hrun
  have hread : NamesRead letterExchange (wide "/a") none [] := by
    refine ⟨congrArg Except.ok hname.symm, rfl, ?_⟩
    intro r hr
    cases hr
    rfl
  have hchild : NamesChild folderOptions.cwd (.ofText (wide "a")) := by
    refine ⟨htrailing, wide "a", by decide, by decide, .inr (.inr ⟨?_, hdir, hparts⟩)⟩
    rintro (habs | ⟨hne, -⟩)
    · unfold isAbsolute at habs
      rw [hroot] at habs
      cases habs
    · exact hne hroot
  have hanswered : answeredName (wide "/a") none [] = wide "a" := hname
  rcases hresult : prepare reliableEnv folderOptions letterExchange
    emptyDisk with ⟨_ | t, disk₀⟩
  · rw [hresult] at hsome
    cases hsome
  · refine ⟨t, disk₀, rfl,
      (prepare_confined_iff hdestination hread hresult).mpr ⟨?_, ?_, ?_⟩⟩
    · rwa [hname]
    · rw [hanswered]
      rintro ⟨-, hexists | heq⟩
      · cases hexists
      · rw [hname] at heq
        exact absurd heq hkey
    · rw [hanswered]
      exact fun _ => hchild

end Baulk.Net
