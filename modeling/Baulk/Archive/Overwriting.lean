import Baulk.Archive.Cancellation
import Baulk.Archive.FileSystem
import Baulk.Tar.Alignment

/-!
# Extracting over what is there

With `overwrite_mode` off, an extraction should leave alone what was there
before, and report what is in its way.  Both extractors pass the option on to
`NewSymlink`, and the one for zip archives also to `NewFile`.  The one for tar
archives asks `NewFile` to overwrite in any case.
-/

namespace Baulk.Archive

/-! ## The calls of an extraction -/

/-- The call creates a folder, a file or a link for an entry. -/
def Action.Creates : Action → Prop
  | .makeDirectories _ _ => True
  | .newFile _ _ _ => True
  | .newSymlink _ _ _ => True
  | _ => False

/-- What files and links are to be created with: whether they may overwrite
something. -/
def Action.Passes (files links : Bool) : Action → Prop
  | .newFile _ _ overwrite => overwrite = files
  | .newSymlink _ _ overwrite => overwrite = links
  | _ => True

namespace Host

variable {host : Host} {files links : Bool}

/-- Every call of the log that creates something has worked. -/
def Settled (host : Host) (log : Log) : Prop :=
  ∀ before action, before ++ [action] <+: log → action.Creates →
    host.disk (before ++ [action]) = none

/-- The log while an extraction goes on. -/
structure Orderly (host : Host) (files links : Bool) (log : Log) : Prop where
  passes : ∀ action ∈ log, action.Passes files links
  settled : host.options.ignoreError = false → host.Settled log

/-- The result of an extraction or of a part of it: a call that has failed is
the reason why it has failed. -/
structure Reports (host : Host) (files links : Bool) (r : Extracted) :
    Prop where
  passes : ∀ action ∈ r.log, action.Passes files links
  settled : host.options.ignoreError = false → host.Settled r.log ∨
    r.ok = false ∧ ∃ e : FsError, r.ec = e.toErrorCode

theorem orderly_nil (host : Host) (files links : Bool) :
    host.Orderly files links [] where
  passes action hmem := by cases hmem
  settled _ before action hbefore := by
    have hlength := hbefore.length_le
    rw [List.length_append, List.length_singleton, List.length_nil] at hlength
    omega

theorem Orderly.reports {log : Log} (h : host.Orderly files links log)
    (ok : Bool) (ec : ErrorCode) : host.Reports files links ⟨ok, ec, log⟩ :=
  ⟨h.passes, fun hstop => .inl (h.settled hstop)⟩

theorem Reports.orderly {r : Extracted} (h : host.Reports files links r)
    (hok : r.ok = true ∨ host.options.ignoreError = true) :
    host.Orderly files links r.log := by
  refine ⟨h.passes, fun hstop => ?_⟩
  rcases h.settled hstop with hsettled | ⟨hfailed, -⟩
  · exact hsettled
  · rcases hok with hok | hignore
    · rw [hfailed] at hok
      contradiction
    · rw [hstop] at hignore
      contradiction

theorem Settled.concat {log : Log} (h : host.Settled log) {action : Action}
    (hworks : action.Creates → host.disk (log ++ [action]) = none) :
    host.Settled (log ++ [action]) := by
  intro before action' hbefore hcreates
  rcases List.prefix_concat_iff.mp hbefore with heq | hearlier
  · obtain ⟨rfl, hlast⟩ := List.append_inj' heq rfl
    cases hlast
    exact hworks hcreates
  · exact h before action' hearlier hcreates

theorem Orderly.concat {log : Log} (h : host.Orderly files links log)
    (action : Action) (hquiet : ¬ action.Creates) :
    host.Orderly files links (log ++ [action]) where
  passes := by
    intro action' hmem
    rcases List.mem_append.mp hmem with hmem | hmem
    · exact h.passes action' hmem
    · rw [List.mem_singleton.mp hmem]
      cases action <;> first
        | trivial
        | exact absurd trivial hquiet
  settled hstop :=
    (h.settled hstop).concat fun hcreates => absurd hcreates hquiet

theorem Orderly.perform {log : Log} (h : host.Orderly files links log)
    (action : Action) (hpasses : action.Passes files links) (ec : ErrorCode) :
    host.Reports files links (host.perform action ec log) := by
  refine ⟨?_, fun hstop => ?_⟩
  · rw [perform_log]
    intro action' hmem
    rcases List.mem_append.mp hmem with hmem | hmem
    · exact h.passes action' hmem
    · rw [List.mem_singleton.mp hmem]
      exact hpasses
  · rw [perform_log]
    unfold Host.perform
    dsimp only
    cases hdisk : host.disk (log ++ [action]) with
    | none => exact .inl ((h.settled hstop).concat fun _ => hdisk)
    | some e => exact .inr ⟨rfl, e, rfl⟩

theorem Orderly.consumeAll {log : Log} (h : host.Orderly files links log)
    (chunks : List Bytes) :
    host.Orderly files links (host.consumeAll log chunks) := by
  induction chunks using List.reverseRecOn with
  | nil => exact h
  | append_singleton chunks chunk ih =>
      rw [consumeAll_concat]
      have hreport := ih.concat (.report chunk.length) id
      unfold consume
      dsimp only
      split
      · exact hreport
      · have hwrite := hreport.concat (.write chunk) id
        split
        · exact hwrite
        · exact hwrite

theorem Orderly.symlink {log : Log}
    (h : host.Orderly files host.options.overwriteMode log)
    (decode : Bytes → WString) (link : WinPath) (linkname : Bytes)
    (ec : ErrorCode) :
    host.Reports files host.options.overwriteMode
      (host.symlink (createSymlink decode) link linkname ec log) := by
  have hnone := h.reports
  have hmade := h.perform (.newSymlink link (decode linkname)
    host.options.overwriteMode) rfl ec
  rw [← List.append_nil log] at hnone
  unfold Host.symlink createSymlink
  dsimp only
  split
  · exact hnone _ _
  split
  · exact hnone _ _
  split
  · exact hnone _ _
  · obtain ⟨hpasses, hsettled⟩ := hmade
    rw [perform_log] at hpasses hsettled
    exact ⟨hpasses, hsettled⟩

end Host

end Baulk.Archive

/-! ## Zip archives -/

namespace Baulk.Zip.Extractor

open Archive

variable {x : Extractor} {fuel : Nat}

theorem extractData_reports {index : Nat} {file : File} {ec : ErrorCode}
    {log : Log} {r : Extracted}
    (horderly : x.host.Orderly x.host.options.overwriteMode
      x.host.options.overwriteMode log)
    (h : x.extractData fuel index file ec log = some r) :
    x.host.Reports x.host.options.overwriteMode
      x.host.options.overwriteMode r := by
  unfold extractData at h
  split at h <;> cases h
  exact (horderly.consumeAll _).reports _ _

theorem extractEntry_reports {index : Nat} {file : File} {ec : ErrorCode}
    {log : Log} {r : Extracted}
    (horderly : x.host.Orderly x.host.options.overwriteMode
      x.host.options.overwriteMode log)
    (h : x.extractEntry fuel index file ec log = some r) :
    x.host.Reports x.host.options.overwriteMode
      x.host.options.overwriteMode r := by
  have hentry := horderly.concat (.entry index) id
  unfold extractEntry at h
  dsimp only at h
  split at h
  · cases h
    exact hentry.reports _ _
  split at h
  · cases h
    exact hentry.reports _ _
  split at h
  · cases h
    exact hentry.perform (.makeDirectories _ _) trivial ec
  split at h
  · split at h
    · contradiction
    · cases h
      exact hentry.symlink _ _ _ _
  · rename_i out _ _ _ _ _
    have hcreated := hentry.perform
      (.newFile out file.time x.host.options.overwriteMode) rfl ec
    split at h
    · cases h
      exact hcreated
    · rename_i hok
      rw [Bool.not_eq_true', Bool.not_eq_false] at hok
      exact extractData_reports (hcreated.orderly (.inl hok)) h

theorem extractFiles_reports {files : List File} {index : Nat}
    {ec : ErrorCode} {log : Log} {r : Extracted}
    (horderly : x.host.Orderly x.host.options.overwriteMode
      x.host.options.overwriteMode log)
    (h : x.extractFiles fuel index files ec log = some r) :
    x.host.Reports x.host.options.overwriteMode
      x.host.options.overwriteMode r := by
  induction files generalizing index ec log with
  | nil =>
      cases h
      exact horderly.reports _ _
  | cons file files ih =>
      unfold extractFiles at h
      split at h
      · contradiction
      rename_i r₁ hentry
      have hreports := extractEntry_reports horderly hentry
      split at h
      · rename_i hok
        exact ih (hreports.orderly (.inl hok)) h
      split at h
      · cases h
        exact hreports
      · rename_i hgoes
        rw [not_or, Bool.not_eq_false] at hgoes
        exact ih (hreports.orderly (.inr hgoes.2)) h

theorem extract_reports {ec : ErrorCode} {r : Extracted}
    (h : x.extract fuel ec = some r) :
    x.host.Reports x.host.options.overwriteMode
      x.host.options.overwriteMode r := by
  have hcreated := (x.host.orderly_nil x.host.options.overwriteMode
    x.host.options.overwriteMode).perform
      (.createDirectories x.host.destination) trivial ec
  unfold extract at h
  dsimp only at h
  split at h
  · cases h
    exact hcreated
  · rename_i hok
    rw [Bool.not_eq_true', Bool.not_eq_false] at hok
    exact extractFiles_reports (hcreated.orderly (.inl hok)) h

end Baulk.Zip.Extractor

/-! ## Tar archives -/

namespace Baulk.Tar.Extractor

open Archive
open Support (Step loop loop_spec)

variable {R : ExtractReader} {x : Extractor} {fuel : Nat}

theorem extractData_reports {h : Header} {log : Log} {r r' : Reader R}
    {e : Extracted}
    (horderly : x.host.Orderly true x.host.options.overwriteMode log)
    (hrun : x.extractData h log r = some (e, r')) :
    x.host.Reports true x.host.options.overwriteMode e := by
  unfold extractData at hrun
  split at hrun
  · contradiction
  rename_i result r₁ hwrite
  have hconsumed := horderly.consumeAll result.chunks
  dsimp only at hrun
  split at hrun <;> cases hrun
  · exact hconsumed.reports _ _
  · exact (hconsumed.concat .discard id).reports _ _

theorem extractEntry_reports {h : Header} {ec : ErrorCode} {log : Log}
    {r r' : Reader R} {e : Extracted}
    (horderly : x.host.Orderly true x.host.options.overwriteMode log)
    (hrun : x.extractEntry h ec log r = some (e, r')) :
    x.host.Reports true x.host.options.overwriteMode e := by
  unfold extractEntry at hrun
  split at hrun
  · cases hrun
    exact horderly.reports _ _
  split at hrun
  · cases hrun
    exact horderly.reports _ _
  split at hrun
  · cases hrun
    exact horderly.perform (.makeDirectories _ _) trivial ec
  split at hrun
  · cases hrun
    exact horderly.symlink _ _ _ _
  split at hrun
  · cases hrun
    exact horderly.reports _ _
  · rename_i out _ _ _ _ _ _
    have hcreated := horderly.perform (.newFile out h.modTime true) rfl ec
    dsimp only at hrun
    split at hrun
    · cases hrun
      exact hcreated
    · rename_i hok
      rw [Bool.not_eq_true', Bool.not_eq_false] at hok
      exact extractData_reports (hcreated.orderly (.inl hok)) hrun

theorem finish_fs (e : FsError) (r : Reader R) (log : Log) :
    finish e.toErrorCode r log = ⟨false, e.toErrorCode, log⟩ := by
  have hpos := e.pos
  have hle := e.le
  have hcode : e.toErrorCode.code = e.code := rfl
  unfold finish
  rw [if_neg, if_pos]
  · rw [ErrorCode.isError, hcode, bne_iff_ne]
    rw [ErrorCode.errGeneral] at hle
    refine ⟨?_, ?_⟩
    · rw [ErrorCode.errNone]
      omega
    · rw [ErrorCode.errEnded]
      omega
  · rintro ⟨-, hnot⟩
    rw [hcode, ErrorCode.errNotTarFile] at hnot
    rw [ErrorCode.errGeneral] at hle
    omega

theorem finish_reports {ec : ErrorCode} (ok : Bool) {r : Reader R} {log : Log}
    (h : x.host.Reports true x.host.options.overwriteMode ⟨ok, ec, log⟩) :
    x.host.Reports true x.host.options.overwriteMode (finish ec r log) := by
  refine ⟨?_, fun hstop => ?_⟩
  · rw [finish_log]
    exact h.passes
  · rw [finish_log]
    rcases h.settled hstop with hsettled | ⟨-, e, he⟩
    · exact .inl hsettled
    · have hec : ec = e.toErrorCode := he
      rw [hec, finish_fs]
      exact .inr ⟨rfl, e, rfl⟩

theorem extract_reports {s : R.State} {ec : ErrorCode} {r : Extracted}
    (hrun : x.extract R fuel s ec = some r) :
    x.host.Reports true x.host.options.overwriteMode r := by
  have hcreated := (x.host.orderly_nil true
    x.host.options.overwriteMode).perform
      (.createDirectories x.host.destination) trivial ec
  have hbody : ∀ (l : ExtractLoop R) (step : Step (ExtractLoop R) Extracted),
      x.host.Orderly true x.host.options.overwriteMode l.log →
      x.extractBody fuel l = some step →
      step.Sat (fun l => x.host.Orderly true x.host.options.overwriteMode l.log)
        (x.host.Reports true x.host.options.overwriteMode) := by
    intro l step hl hstep
    have hentry := hl.concat (.entry l.count) id
    unfold extractBody at hstep
    split at hstep
    · contradiction
    · cases hstep
      exact finish_reports true (hl.reports true _)
    split at hstep
    · contradiction
    rename_i e r₁ hextract
    have hreports := extractEntry_reports hentry hextract
    split at hstep
    · rename_i hok
      cases hstep
      exact hreports.orderly (.inl hok)
    rename_i hfailed
    rw [Bool.not_eq_true] at hfailed
    split at hstep
    · cases hstep
      exact ⟨hreports.passes, fun hstop => (hreports.settled hstop).imp_right
        fun hreason => ⟨rfl, hreason.2⟩⟩
    split at hstep
    · cases hstep
      exact finish_reports e.ok hreports
    · rename_i hgoes
      cases hstep
      rw [not_or, not_or, Bool.not_eq_false] at hgoes
      exact hreports.orderly (.inr hgoes.2.2)
  unfold extract at hrun
  dsimp only at hrun
  split at hrun
  · cases hrun
    exact hcreated
  · rename_i hok
    rw [Bool.not_eq_true', Bool.not_eq_false] at hok
    exact loop_spec hbody (hcreated.orderly (.inl hok)) hrun

end Baulk.Tar.Extractor

/-! ## What is there before -/

namespace Baulk.Archive

open FileSystem (Volume)

section Contract

variable {fs : FileSystem}

/-- What is expected with `overwrite_mode` off, when the file system is in the
state `s` before: nothing that is there changes, and a call for which something
is in the way fails, and with it the extraction unless errors are ignored. -/
structure OverwriteContract (host : Host) (s : fs.State) (r : Extracted) :
    Prop where
  untouched : ∀ before, before <+: r.log →
    fs.Spares s (Volume.after ⟨s, none⟩ before).state
  reported : ∀ before action, before ++ [action] <+: r.log →
    (Volume.after ⟨s, none⟩ before).Collides s action →
    host.disk (before ++ [action]) ≠ none ∧
      (host.options.ignoreError = false → r.ok = false ∧ r.ec.isError = true)

/-- What holds for the path whenever a file is to be created. -/
def AtNewFiles (s : fs.State) (log : Log)
    (P : fs.Volume → WinPath → Prop) : Prop :=
  ∀ before path modified overwrite,
    before ++ [.newFile path modified overwrite] <+: log →
    P (Volume.after ⟨s, none⟩ before) path

def LeadsSomewhere (s : fs.State) (v : fs.Volume) (path : WinPath) : Prop :=
  v.Occupied s path → fs.fsExists v.state path = true

/-- Nothing that was there stands at the path, and it leads to no file that was
there. -/
def Free (s : fs.State) (v : fs.Volume) (path : WinPath) : Prop :=
  ¬ v.Occupied s path ∧ FileSystem.LeadsToNew s v.state path

theorem FsError.isError (e : FsError) : e.toErrorCode.isError = true := by
  have hpos := e.pos
  rw [ErrorCode.isError, bne_iff_ne]
  change (e.code : Int) ≠ ErrorCode.errNone
  rw [ErrorCode.errNone]
  omega

theorem Action.Creates.of_collides {s : fs.State} {v : fs.Volume}
    {action : Action} (h : v.Collides s action) : action.Creates := by
  cases action <;> trivial

/-- An extraction whose calls are careful and notice what is in their way. -/
theorem contract_of_reports (hfs : fs.Lawful) {host : Host} {s : fs.State}
    (hhost : host.RunsOn s) {files links : Bool} {r : Extracted}
    (hreports : host.Reports files links r)
    (hcareful : ∀ before action, before ++ [action] <+: r.log →
      (Volume.after ⟨s, none⟩ before).Careful s action)
    (hnotices : ∀ before action, before ++ [action] <+: r.log →
      (Volume.after ⟨s, none⟩ before).Notices s action) :
    OverwriteContract host s r := by
  have hstart : Volume.Untouched s (⟨s, none⟩ : fs.Volume) :=
    ⟨fun o leaf hleaf => hleaf, fun fd hfd => by contradiction⟩
  refine ⟨fun before hbefore => ?_, fun before action hlog hcollides => ?_⟩
  · refine (hstart.after hfs fun earlier action hlog => ?_).spares
    exact hcareful earlier action (hlog.trans hbefore)
  · have hfails : host.disk (before ++ [action]) ≠ none := by
      have hdisk := congrFun hhost (before ++ [action])
      rw [Volume.disk_concat] at hdisk
      rw [hdisk]
      exact Volume.act_of_collides hfs (hnotices before action hlog) hcollides
    refine ⟨hfails, fun hstop => ?_⟩
    rcases hreports.settled hstop with hsettled | ⟨hfailed, e, he⟩
    · exact absurd (hsettled before action hlog (.of_collides hcollides)) hfails
    · rw [he]
      exact ⟨hfailed, e.isError⟩

theorem mem_of_call {log before : Log} {action : Action}
    (h : before ++ [action] <+: log) : action ∈ log :=
  h.subset (List.mem_append_right _ (List.mem_singleton_self _))

end Contract

/-- With `overwrite_mode` off, the extraction of a zip archive leaves alone what
is there and reports what is in its way, if no link that leads nowhere is in the
way of a file.  That of a tar archive does so if nothing is in the way of a
file. -/
theorem extract_overwriteContract (fs : FileSystem) (hfs : fs.Lawful)
    (s : fs.State) (x : Zip.Extractor) (y : Tar.Extractor)
    (R : Tar.ExtractReader) (fuel : Nat) (source : R.State) (ec : ErrorCode)
    (r : Extracted) :
    (x.host.RunsOn s → x.host.options.overwriteMode = false →
      x.extract fuel ec = some r → AtNewFiles s r.log (LeadsSomewhere s) →
      OverwriteContract x.host s r) ∧
    (y.host.RunsOn s → y.host.options.overwriteMode = false →
      y.extract R fuel source ec = some r → AtNewFiles s r.log (Free s) →
      OverwriteContract y.host s r) := by
  refine ⟨?_, ?_⟩
  · intro hhost hoption hrun hlinks
    have hreports := Zip.Extractor.extract_reports hrun
    rw [hoption] at hreports
    refine contract_of_reports hfs hhost hreports ?_ ?_
    · intro before action hlog
      have hpasses := hreports.passes action (mem_of_call hlog)
      cases action with
      | newFile path modified overwrite =>
          intro htrue
          have hfalse : overwrite = false := hpasses
          rw [hfalse] at htrue
          contradiction
      | newSymlink path source overwrite => exact hpasses
      | _ => trivial
    · intro before action hlog
      have hpasses := hreports.passes action (mem_of_call hlog)
      cases action with
      | newFile path modified overwrite =>
          exact fun hoccupied =>
            ⟨hpasses, hlinks before path modified overwrite hlog hoccupied⟩
      | newSymlink path source overwrite => exact hpasses
      | _ => trivial
  · intro hhost hoption hrun hfree
    have hreports := Tar.Extractor.extract_reports hrun
    rw [hoption] at hreports
    refine contract_of_reports hfs hhost hreports ?_ ?_
    · intro before action hlog
      have hpasses := hreports.passes action (mem_of_call hlog)
      cases action with
      | newFile path modified overwrite =>
          exact fun _ => (hfree before path modified overwrite hlog).2
      | newSymlink path source overwrite => exact hpasses
      | _ => trivial
    · intro before action hlog
      have hpasses := hreports.passes action (mem_of_call hlog)
      cases action with
      | newFile path modified overwrite =>
          exact fun hoccupied =>
            absurd hoccupied (hfree before path modified overwrite hlog).1
      | newSymlink path source overwrite => exact hpasses
      | _ => trivial

/-! ## A disk without folders -/

/-- Put something at names, or take it away. -/
def putLeaf (s : List WString → Option Leaf) (names : List WString)
    (leaf : Option Leaf) : List WString → Option Leaf :=
  fun names' => if names' = names then leaf else s names'

theorem putLeaf_of_ne {s : List WString → Option Leaf}
    {names names' : List WString} (h : names' ≠ names) (leaf : Option Leaf) :
    putLeaf s names leaf names' = s names' :=
  if_neg h

/-- Files and links by the names that lead to them.  Folders are not recorded,
and no link leads to anything. -/
def flatDisk : FileSystem where
  State := List WString → Option Leaf
  Object := List WString
  holds s o := s o
  occupant s path :=
    if (s path.normalParts).isSome then some path.normalParts else none
  target s path :=
    match s path.normalParts with
    | some (.data _) => some path.normalParts
    | _ => none
  fsExists s path :=
    match s path.normalParts with
    | some (.data _) => true
    | _ => false
  isDirectory _ _ := false
  createDirectories s path :=
    (if (s path.normalParts).isSome then some .accessDenied else none, s)
  createAlways s path :=
    match s path.normalParts with
    | some (.link _) => (.error .accessDenied, s)
    | _ =>
        (.ok path.normalParts,
          putLeaf s path.normalParts (some (.data [])))
  setFileTime s _ _ := (none, s)
  openExisting _ _ := none
  setTimeAt s _ _ := (none, s)
  writeFile s o chunk :=
    match s o with
    | some (.data content) =>
        (none, putLeaf s o (some (.data (content ++ chunk))))
    | _ => (none, s)
  discardFd s o := putLeaf s o none
  removeAll s path := putLeaf s path.normalParts none
  createSymlink s source path :=
    match s path.normalParts with
    | some _ => (some .accessDenied, s)
    | none => (none, putLeaf s path.normalParts (some (.link source)))

theorem flatDisk_lawful : flatDisk.Lawful where
  exists_of_target s path h := by
    dsimp only [flatDisk] at h ⊢
    split at h
    · rfl
    · contradiction
  createDirectories_holds _ _ := rfl
  createDirectories_target _ _ _ h := h
  createDirectories_occupant _ _ _ _ h := h
  createDirectories_fails s path h _ := by
    dsimp only [flatDisk] at h ⊢
    split at h
    · rename_i hsome
      rw [if_pos hsome]
      exact Option.some_ne_none _
    · contradiction
  createAlways_opens s path o s' h := by
    dsimp only [flatDisk] at h ⊢
    cases hleaf : s path.normalParts with
    | none =>
        rw [hleaf] at h
        cases h
        exact .inr ⟨rfl, hleaf⟩
    | some leaf =>
        cases leaf with
        | data content =>
            rw [hleaf] at h
            cases h
            exact .inl rfl
        | link source =>
            rw [hleaf] at h
            cases h
  createAlways_holds s path o s' h o' hne := by
    dsimp only [flatDisk] at h ⊢
    split at h <;> cases h
    exact putLeaf_of_ne hne _
  createAlways_fails s path e s' h := by
    dsimp only [flatDisk] at h ⊢
    split at h <;> cases h
    rfl
  setFileTime_holds _ _ _ := rfl
  setTimeAt_holds _ _ _ := rfl
  writeFile_holds s o chunk o' hne := by
    dsimp only [flatDisk]
    split
    · exact putLeaf_of_ne hne _
    · rfl
  discardFd_holds s o o' hne := putLeaf_of_ne hne _
  createSymlink_holds s source path o leaf h := by
    dsimp only [flatDisk] at h ⊢
    split
    · exact h
    · rename_i hnone
      have hne : o ≠ path.normalParts := by
        rintro rfl
        rw [hnone] at h
        contradiction
      exact (putLeaf_of_ne hne _).trans h
  createSymlink_fails s source path h := by
    dsimp only [flatDisk] at h ⊢
    cases hleaf : s path.normalParts with
    | none =>
        rw [hleaf] at h
        contradiction
    | some leaf => exact Option.some_ne_none _

/-! ## A letter that is there before -/

/-- The names of `C:\d\a`. -/
def letterNames : List WString := [wide "d", wide "a"]

/-- A disk with one file, in `C:\d`. -/
def letterDisk (content : Bytes) (name : WString) : flatDisk.State :=
  putLeaf (fun _ => none) [wide "d", name] (some (.data content))

/-- An extraction into `C:\d` with `overwrite_mode` off, from such a disk. -/
def keepingHost (s : flatDisk.State) : Host where
  destination := WinPath.ofText (wide "C:\\d")
  options := { overwriteMode := false }
  encodeToNativePath _ name := name.map UInt8.toUInt16
  disk := Volume.disk (⟨s, none⟩ : flatDisk.Volume)
  symlinks _ := ⟨⟨WinPath.ofText (wide "C:\\"), fun _ => WinPath.ofText []⟩,
    none, none⟩
  progress _ := true

/-- The archive with the file "a" and the directory "b". -/
def fileAndDirReader : Tar.ExtractReader :=
  Tar.fileReader (Tar.streamFile Tar.fileAndDir Tar.length_fileAndDir) 4

def keepingTar (s : flatDisk.State) : Tar.Extractor where
  rt := Tar.plainRuntime
  filter _ _ := true
  host := keepingHost s

/-- The archive with the stored file "a". -/
def keepingZip (s : flatDisk.State) : Zip.Extractor :=
  { canceledLetter Zip.zipStore with host := keepingHost s }

/-- All files of the log are created at the names `names`. -/
def createsAt (names : List WString) (log : Log) : Bool :=
  log.all fun action =>
    match action with
    | .newFile path _ _ => path.normalParts == names
    | _ => true

theorem normalParts_of_createsAt {names : List WString} {log before : Log}
    {path : WinPath} {modified : Time} {overwrite : Bool}
    (h : createsAt names log = true)
    (hlog : before ++ [.newFile path modified overwrite] <+: log) :
    path.normalParts = names :=
  beq_iff_eq.mp (List.all_eq_true.mp h _ (mem_of_call hlog))

theorem free_of_ne {s : flatDisk.State} {names : List WString} {log : Log}
    (hs : s names = none) (h : createsAt names log = true) :
    AtNewFiles s log (Free s) := by
  intro before path modified overwrite hlog
  have hnames := normalParts_of_createsAt h hlog
  have hnone : flatDisk.holds s path.normalParts = none := by
    rw [hnames]
    exact hs
  refine ⟨?_, ?_⟩
  · rintro ⟨o, hoccupant, hsome⟩
    dsimp only [flatDisk] at hoccupant
    split at hoccupant <;> cases hoccupant
    exact hsome hnone
  · intro o htarget
    dsimp only [flatDisk] at htarget
    split at htarget <;> cases htarget
    exact hnone

/-- Next to another file, both archives are extracted as expected. -/
theorem extract_overwriteContract_beside :
    (∃ r, (keepingZip (letterDisk [0x62] (wide "z"))).extract 4 {} = some r ∧
      OverwriteContract (keepingHost (letterDisk [0x62] (wide "z")))
        (letterDisk [0x62] (wide "z")) r) ∧
    ∃ r, (keepingTar (letterDisk [0x62] (wide "z"))).extract fileAndDirReader 4
        ⟨0, 0⟩ {} = some r ∧
      OverwriteContract (keepingHost (letterDisk [0x62] (wide "z")))
        (letterDisk [0x62] (wide "z")) r := by
  have hzip : ((keepingZip (letterDisk [0x62] (wide "z"))).extract 4 {}).map
      (fun r => createsAt letterNames r.log) = some true := by
    decide
  have htar : ((keepingTar (letterDisk [0x62] (wide "z"))).extract
      fileAndDirReader 4 ⟨0, 0⟩ {}).map
        (fun r => createsAt letterNames r.log) = some true := by
    decide +kernel
  have hfree : letterDisk [0x62] (wide "z") letterNames = none := by
    decide
  have hcontract := fun r => extract_overwriteContract flatDisk flatDisk_lawful
    (letterDisk [0x62] (wide "z")) (keepingZip (letterDisk [0x62] (wide "z")))
    (keepingTar (letterDisk [0x62] (wide "z"))) fileAndDirReader 4 ⟨0, 0⟩ {} r
  rw [Option.map_eq_some_iff] at hzip htar
  obtain ⟨r, hrun, hcreates⟩ := hzip
  obtain ⟨r', hrun', hcreates'⟩ := htar
  refine ⟨⟨r, hrun, (hcontract r).1 rfl rfl hrun ?_⟩,
    r', hrun', (hcontract r').2 rfl rfl hrun' (free_of_ne hfree hcreates')⟩
  intro before path modified overwrite hlog hoccupied
  exact absurd hoccupied
    (free_of_ne hfree hcreates before path modified overwrite hlog).1

/-- A file that is in the way is overwritten from a tar archive. -/
theorem extract_tar_overwrites : ∃ r,
    (keepingTar (letterDisk [0x62] (wide "a"))).extract fileAndDirReader 4
        ⟨0, 0⟩ {} = some r ∧ r.ok = true ∧
      ¬ OverwriteContract (keepingHost (letterDisk [0x62] (wide "a")))
        (letterDisk [0x62] (wide "a")) r := by
  have hrun : ((keepingTar (letterDisk [0x62] (wide "a"))).extract
      fileAndDirReader 4 ⟨0, 0⟩ {}).map (fun r => (r.ok, (Volume.after
        (⟨letterDisk [0x62] (wide "a"), none⟩ : flatDisk.Volume) r.log).state
          letterNames)) = some (true, some (.data [0x78])) := by
    decide +kernel
  rw [Option.map_eq_some_iff] at hrun
  obtain ⟨r, hrun, hleft⟩ := hrun
  rw [Prod.mk.injEq] at hleft
  refine ⟨r, hrun, hleft.1, fun hcontract => ?_⟩
  have hspared := hcontract.untouched r.log (List.prefix_refl _) letterNames
    (.data [0x62]) rfl
  have hsame := hspared.symm.trans hleft.2
  revert hsame
  decide

end Baulk.Archive
