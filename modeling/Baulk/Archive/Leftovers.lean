import Baulk.Archive.Overwriting
import Baulk.Zip.DecompressCrc

/-!
# Files that a failed extraction leaves

`tar::Extractor` discards the file of an entry whose data it cannot write.
`zip::Extractor` never discards anything: the file of a regular entry is left as
soon as it was created, whatever becomes of its data.
-/

namespace Baulk.Archive

/-! ## Open files -/

namespace FileSystem

/-- What the calls on a file that was opened are documented to do to this file. -/
structure Keeps (fs : FileSystem) : Prop where
  createAlways_target : ∀ s path o s', fs.createAlways s path = (.ok o, s') →
    fs.target s' path = some o
  createAlways_exists : ∀ s path o s', fs.createAlways s path = (.ok o, s') →
    fs.holds s' o ≠ none
  setFileTime_target : ∀ s o t, fs.target (fs.setFileTime s o t).2 = fs.target s
  writeFile_target : ∀ s o chunk, fs.target (fs.writeFile s o chunk).2 = fs.target s
  writeFile_exists : ∀ s o chunk, fs.holds s o ≠ none →
    fs.holds (fs.writeFile s o chunk).2 o ≠ none
  /-- Neither call of `SetFileInformationByHandle` in `discard_fd` fails; if both did, the
  file would stay. -/
  discardFd_removes : ∀ s o, fs.holds (fs.discardFd s o) o = none

variable {fs : FileSystem}

/-- A file that `NewFile` returns is at its path. -/
theorem newFile_ok (hfs : fs.Lawful) (hkeeps : fs.Keeps) {path : WinPath} {modified : Time}
    {overwrite : Bool} {s s' : fs.State} {fd : fs.Object}
    (h : fs.newFile path modified overwrite s = (.ok fd, s')) :
    fs.target s' path = some fd ∧ fs.holds s' fd ≠ none := by
  have hcreate : ∀ s₁, fs.createModified path modified s₁ = (.ok fd, s') →
      fs.target s' path = some fd ∧ fs.holds s' fd ≠ none := by
    intro s₁ h
    unfold createModified at h
    rcases hopen : fs.createAlways s₁ path with ⟨e | fd', s₂⟩ <;> rw [hopen] at h
    · cases h
    · dsimp only at h
      have htarget := hkeeps.setFileTime_target s₂ fd' modified
      have hholds := hfs.setFileTime_holds s₂ fd' modified
      rcases htime : fs.setFileTime s₂ fd' modified with ⟨_ | e, s₃⟩ <;>
        rw [htime] at h htarget hholds <;> cases h
      rw [htarget, hholds]
      exact ⟨hkeeps.createAlways_target s₁ path fd s₂ hopen,
        hkeeps.createAlways_exists s₁ path fd s₂ hopen⟩
  unfold newFile at h
  dsimp only at h
  split at h
  · cases h
  · exact hcreate _ h

namespace Volume

/-- The file that is open is the one at the path. -/
structure OpenAt (v : fs.Volume) (path : WinPath) (fd : fs.Object) : Prop where
  current : v.current = some fd
  target : fs.target v.state path = some fd
  present : fs.holds v.state fd ≠ none

/-- A file that was created between two states of the log is still at its path in the
second one. -/
def LeavesFile (v : fs.Volume) (log log' : Log) (path : WinPath) : Prop :=
  ∃ (front rest : Log) (modified : Time) (overwrite : Bool) (fd : fs.Object),
    log' = log ++ front ++ .newFile path modified overwrite :: rest ∧
    (v.after (log ++ front ++ [.newFile path modified overwrite])).current = some fd ∧
    fs.target (v.after log').state path = some fd ∧
    fs.holds (v.after log').state fd ≠ none

/-- No file that was created between two states of the log is left. -/
def LeavesNothing (v : fs.Volume) (log log' : Log) : Prop :=
  ∀ path, ¬ v.LeavesFile log log' path

end Volume

end FileSystem

/-- What a log writes to files. -/
def Log.data (log : Log) : Bytes :=
  (log.filterMap fun
    | .write chunk => some chunk
    | _ => none).flatten

/-- The call is about the data of the open file. -/
def Action.IsData : Action → Prop
  | .report _ => True
  | .write _ => True
  | _ => False

theorem Host.perform_ok {host : Host} {action : Action} {ec : ErrorCode} {log : Log} :
    (host.perform action ec log).ok = true ↔ host.disk (log ++ [action]) = none := by
  unfold perform
  dsimp only
  cases host.disk (log ++ [action]) with
  | none => exact iff_of_true rfl rfl
  | some e => exact iff_of_false Bool.false_ne_true (Option.some_ne_none e)

theorem Host.consumeAll_data (host : Host) (log : Log) (chunks : List Bytes) :
    ∃ added, host.consumeAll log chunks = log ++ added ∧ ∀ a ∈ added, a.IsData := by
  induction chunks using List.reverseRecOn with
  | nil => exact ⟨[], (List.append_nil log).symm, by simp⟩
  | append_singleton chunks chunk ih =>
      obtain ⟨added, heq, hadded⟩ := ih
      obtain ⟨rest, hchunk, hrest⟩ := host.consume_log chunk (host.consumeAll log chunks)
      refine ⟨added ++ .report chunk.length :: rest, ?_, ?_⟩
      · rw [consumeAll_concat, hchunk, heq, List.append_assoc]
      · intro a ha
        rcases List.mem_append.mp ha with ha | ha
        · exact hadded a ha
        · rcases List.mem_cons.mp ha with rfl | ha
          · trivial
          · obtain ⟨c, rfl⟩ := hrest a ha
            trivial

namespace FileSystem.Volume

variable {fs : FileSystem} {v : fs.Volume} {path : WinPath} {fd : fs.Object} {log : Log}

theorem after_append (v : fs.Volume) (log added : Log) :
    v.after (log ++ added) = (v.after log).after added := by
  rw [after, after, after, List.foldl_append]

theorem OpenAt.act (h : v.OpenAt path fd) (hkeeps : fs.Keeps) {action : Action}
    (hdata : action.IsData) : (v.act action).2.OpenAt path fd := by
  cases action with
  | report n => exact h
  | write chunk =>
      unfold Volume.act
      rw [h.current]
      refine ⟨rfl, ?_, hkeeps.writeFile_exists _ _ _ h.present⟩
      dsimp only
      rw [hkeeps.writeFile_target]
      exact h.target
  | _ => exact hdata.elim

theorem OpenAt.after (h : v.OpenAt path fd) (hkeeps : fs.Keeps) {added : Log}
    (hdata : ∀ a ∈ added, a.IsData) : (v.after added).OpenAt path fd := by
  induction added generalizing v with
  | nil => exact h
  | cons action added ih =>
      exact ih (h.act hkeeps (hdata action List.mem_cons_self))
        fun a ha => hdata a (List.mem_cons_of_mem _ ha)

/-- A call of `NewFile` that works opens a file at its path. -/
theorem openAt_newFile (hfs : fs.Lawful) (hkeeps : fs.Keeps) {modified : Time}
    {overwrite : Bool} (h : v.disk (log ++ [.newFile path modified overwrite]) = none) :
    ∃ fd, (v.after (log ++ [.newFile path modified overwrite])).OpenAt path fd := by
  rw [disk_concat] at h
  rw [after_concat]
  unfold Volume.act at h ⊢
  dsimp only at h ⊢
  rcases hnew : fs.newFile path modified overwrite (v.after log).state with ⟨e | fd, s⟩ <;>
    rw [hnew] at h
  · cases h
  · obtain ⟨htarget, hpresent⟩ := newFile_ok hfs hkeeps hnew
    exact ⟨fd, rfl, htarget, hpresent⟩

/-- A call of `NewFile` that fails leaves no file open. -/
theorem current_newFile {modified : Time} {overwrite : Bool}
    (h : v.disk (log ++ [.newFile path modified overwrite]) ≠ none) :
    (v.after (log ++ [.newFile path modified overwrite])).current = none := by
  rw [disk_concat] at h
  rw [after_concat]
  unfold Volume.act at h ⊢
  dsimp only at h ⊢
  rcases hnew : fs.newFile path modified overwrite (v.after log).state with ⟨e | fd, s⟩ <;>
    rw [hnew] at h
  exact absurd rfl h

/-! ## What is left -/

/-- Without a call of `NewFile` nothing is left. -/
theorem leavesNothing_of_quiet {added : Log}
    (h : ∀ path modified overwrite, Action.newFile path modified overwrite ∉ added) :
    v.LeavesNothing log (log ++ added) := by
  rintro path' ⟨front, rest, modified, overwrite, fd, hlog, -⟩
  rw [List.append_assoc, List.append_cancel_left_eq] at hlog
  exact h path' modified overwrite (by rw [hlog]; simp)

theorem LeavesFile.unique {path' : WinPath} {modified : Time} {overwrite : Bool}
    {front rest : Log}
    (hfront : ∀ p m o, Action.newFile p m o ∉ front)
    (hrest : ∀ p m o, Action.newFile p m o ∉ rest)
    (h : v.LeavesFile log (log ++ front ++ .newFile path modified overwrite :: rest) path') :
    ∃ fd, (v.after (log ++ front ++ [.newFile path modified overwrite])).current = some fd ∧
      fs.holds (v.after (log ++ front ++ .newFile path modified overwrite :: rest)).state fd ≠
        none := by
  obtain ⟨front', rest', modified', overwrite', fd, hlog, hcurrent, -, hpresent⟩ := h
  have hsplit := hlog
  rw [List.append_assoc, List.append_assoc, List.append_cancel_left_eq] at hsplit
  rcases List.append_eq_append_iff.mp hsplit with ⟨tail, heq, hcons⟩ | ⟨tail, heq, hcons⟩
  · cases tail with
    | nil =>
        rw [List.nil_append, List.cons.injEq] at hcons
        rw [List.append_nil] at heq
        rw [heq, ← hcons.1] at hcurrent
        exact ⟨fd, hcurrent, hpresent⟩
    | cons action tail =>
        rw [List.cons_append, List.cons.injEq] at hcons
        exact absurd (by rw [hcons.2]; simp) (hrest path' modified' overwrite')
  · cases tail with
    | nil =>
        rw [List.nil_append, List.cons.injEq] at hcons
        rw [List.append_nil] at heq
        rw [← heq, hcons.1] at hcurrent
        exact ⟨fd, hcurrent, hpresent⟩
    | cons action tail =>
        rw [List.cons_append, List.cons.injEq] at hcons
        exact absurd (by rw [heq, ← hcons.1]; simp) (hfront path' modified' overwrite')

end FileSystem.Volume

end Baulk.Archive

/-! ## Zip archives -/

namespace Baulk.Zip

open Archive

def File.isRegular (file : File) : Bool :=
  !file.isDir && !file.isSymlink

/-- An entry that the extraction comes to, the state in which it does, and the result of
`extract_entry`. -/
structure Visit where
  index : Nat
  file : File
  ec : ErrorCode
  log : Log
  result : Extracted

/-- What goes wrong with an entry: it is reported as failed, or what was written does not
have its checksum. -/
def Visit.Fails (visit : Visit) : Prop :=
  visit.result.ok = false ∨
    crc32 (Log.data (visit.result.log.drop visit.log.length)) ≠
      visit.file.crc32Value.toBitVec

namespace Extractor

/-- The entries that the loop comes to. -/
def visits (x : Extractor) (fuel : Nat) : Nat → List File → ErrorCode → Log → List Visit
  | _, [], _, _ => []
  | index, file :: files, ec, log =>
      match x.extractEntry fuel index file ec log with
      | none => []
      | some r =>
          ⟨index, file, ec, log, r⟩ ::
            if r.ok ∨ ¬ (r.ec.code = ErrorCode.errCanceled ∨
                x.host.options.ignoreError = false) then
              x.visits fuel (index + 1) files r.ec r.log
            else []

/-- The entries that `Extract` comes to. -/
def visited (x : Extractor) (fuel : Nat) (ec : ErrorCode) : List Visit :=
  let created := x.host.perform (.createDirectories x.host.destination) ec []
  if !created.ok then [] else x.visits fuel 0 x.files created.ec created.log

/-- `extract_entry` comes to `NewFile`, and this call works. -/
def Creates (x : Extractor) (index : Nat) (file : File) (log : Log) : Prop :=
  ∃ out encodedPath,
    joinSanitizeFsPath (x.host.encodeToNativePath file.isFileNameUTF8) x.host.destination
      file.name = some (out, encodedPath) ∧
    x.filter file encodedPath = true ∧
    x.host.disk (log ++ [.entry index] ++
      [.newFile out file.time x.host.options.overwriteMode]) = none

variable {x : Extractor} {fuel index : Nat} {file : File} {ec : ErrorCode} {log : Log}
  {r : Extracted}

theorem extractEntry_of_mem_visits {visit : Visit} {files : List File}
    (h : visit ∈ x.visits fuel index files ec log) :
    x.extractEntry fuel visit.index visit.file visit.ec visit.log = some visit.result := by
  induction files generalizing index ec log with
  | nil => cases h
  | cons file files ih =>
      unfold visits at h
      split at h
      · cases h
      · next r hentry =>
        rcases List.mem_cons.mp h with rfl | hlater
        · exact hentry
        · split at hlater
          · exact ih hlater
          · cases hlater

theorem extractEntry_of_mem_visited {visit : Visit} (h : visit ∈ x.visited fuel ec) :
    x.extractEntry fuel visit.index visit.file visit.ec visit.log = some visit.result := by
  unfold visited at h
  dsimp only at h
  split at h
  · cases h
  · exact extractEntry_of_mem_visits h

/-- The calls for a regular entry: none, a `NewFile` that fails, or one that works and the
data. -/
theorem extractEntry_regular (hregular : file.isRegular = true)
    (h : x.extractEntry fuel index file ec log = some r) :
    ¬ x.Creates index file log ∧ r.log = log ++ [.entry index] ∨
      ∃ out, (¬ x.Creates index file log ∧
          x.host.disk (log ++ [.entry index] ++
            [.newFile out file.time x.host.options.overwriteMode]) ≠ none ∧
          r.log = log ++ [.entry index] ++
            [.newFile out file.time x.host.options.overwriteMode] ∨
        x.Creates index file log ∧
          x.host.disk (log ++ [.entry index] ++
            [.newFile out file.time x.host.options.overwriteMode]) = none ∧
          ∃ chunks, r.log = x.host.consumeAll (log ++ [.entry index] ++
            [.newFile out file.time x.host.options.overwriteMode]) chunks) := by
  unfold File.isRegular at hregular
  rw [Bool.and_eq_true, Bool.not_eq_true', Bool.not_eq_true'] at hregular
  unfold extractEntry at h
  dsimp only at h
  split at h
  · next hpath =>
    cases h
    refine .inl ⟨?_, rfl⟩
    rintro ⟨out, encodedPath, hjoin, -⟩
    rw [hpath] at hjoin
    cases hjoin
  next out encodedPath hpath =>
  split at h
  · next hfilter =>
    cases h
    refine .inl ⟨?_, rfl⟩
    rintro ⟨out', encodedPath', hjoin, haccepts, -⟩
    rw [hpath] at hjoin
    cases hjoin
    rw [haccepts] at hfilter
    cases hfilter
  next hfilter =>
  rw [Bool.not_eq_true', Bool.not_eq_false] at hfilter
  rw [hregular.1, hregular.2, if_neg Bool.false_ne_true, if_neg Bool.false_ne_true] at h
  refine .inr ⟨out, ?_⟩
  have hlog := x.host.perform_log
    (.newFile out file.time x.host.options.overwriteMode) ec (log ++ [.entry index])
  split at h
  · next hfailed =>
    cases h
    have hdisk : x.host.disk (log ++ [.entry index] ++
        [.newFile out file.time x.host.options.overwriteMode]) ≠ none := by
      intro hnone
      rw [Host.perform_ok.mpr hnone] at hfailed
      cases hfailed
    refine .inl ⟨?_, hdisk, hlog⟩
    rintro ⟨out', encodedPath', hjoin, -, hworks⟩
    rw [hpath] at hjoin
    cases hjoin
    exact hdisk hworks
  · next hworks =>
    rw [Bool.not_eq_true', Bool.not_eq_false] at hworks
    have hdisk := Host.perform_ok.mp hworks
    refine .inr ⟨⟨out, encodedPath, hpath, hfilter, hdisk⟩, hdisk, ?_⟩
    unfold extractData at h
    split at h
    · cases h
    · cases h
      rw [hlog]
      exact ⟨_, rfl⟩

/-- A regular entry leaves no file exactly if none was created for it. -/
theorem leavesNothing_iff {fs : FileSystem} (hfs : fs.Lawful) (hkeeps : fs.Keeps)
    {s : fs.State} (hruns : x.host.RunsOn s) (hregular : file.isRegular = true)
    (h : x.extractEntry fuel index file ec log = some r) :
    FileSystem.Volume.LeavesNothing ⟨s, none⟩ log r.log ↔ ¬ x.Creates index file log := by
  have hfront : ∀ p m o, Action.newFile p m o ∉ [Action.entry index] := by simp
  rcases extractEntry_regular hregular h with ⟨hnot, hlog⟩ | ⟨out, ⟨hnot, hdisk, hlog⟩ |
    ⟨hcreates, hdisk, chunks, hlog⟩⟩
  · rw [hlog]
    exact iff_of_true (FileSystem.Volume.leavesNothing_of_quiet hfront) hnot
  · -- The file that `NewFile` had opened was discarded by itself.
    refine iff_of_true (fun path hleaves => ?_) hnot
    rw [hlog] at hleaves
    obtain ⟨fd, hcurrent, -⟩ := hleaves.unique hfront (by simp)
    rw [hruns] at hdisk
    rw [FileSystem.Volume.current_newFile hdisk] at hcurrent
    cases hcurrent
  · refine iff_of_false (fun hnothing => ?_) (not_not.mpr hcreates)
    rw [hruns] at hdisk
    obtain ⟨fd, hopen⟩ := FileSystem.Volume.openAt_newFile hfs hkeeps hdisk
    obtain ⟨added, hadded, hdata⟩ := x.host.consumeAll_data (log ++ [.entry index] ++
      [.newFile out file.time x.host.options.overwriteMode]) chunks
    have hstill := hopen.after hkeeps hdata
    rw [← FileSystem.Volume.after_append, ← hadded, ← hlog] at hstill
    refine hnothing out ⟨[.entry index], added, file.time, x.host.options.overwriteMode, fd,
      ?_, hopen.current, hstill.target, hstill.present⟩
    rw [hlog, hadded, List.append_assoc _ [_] added]
    rfl

end Extractor

end Baulk.Zip

/-! ## Tar archives -/

namespace Baulk.Tar.Extractor

open Archive

variable {R : ExtractReader}

/-- The end of `extract_entry` discards the file when it fails. -/
theorem extractData_failed {x : Extractor} {h : Header} {log : Log} {r r' : Reader R}
    {e : Extracted} (hdata : x.extractData h log r = some (e, r')) (hfailed : e.ok = false) :
    ∃ chunks, e.log = x.host.consumeAll log chunks ++ [.discard] := by
  unfold extractData at hdata
  dsimp only at hdata
  split at hdata
  · cases hdata
  · next result reader hwrite =>
    split at hdata <;> cases hdata
    · cases hfailed
    · exact ⟨result.chunks, rfl⟩

theorem leavesNothing_of_failed {fs : FileSystem} (hfs : fs.Lawful) (hkeeps : fs.Keeps)
    {s : fs.State} {x : Extractor} (hruns : x.host.RunsOn s) {h : Header} {ec : ErrorCode}
    {log : Log} {r r' : Reader R} {e : Extracted}
    (hentry : x.extractEntry h ec log r = some (e, r')) (hfailed : e.ok = false) :
    FileSystem.Volume.LeavesNothing ⟨s, none⟩ log e.log := by
  have hnothing : ∀ p m o, Action.newFile p m o ∉ ([] : Log) := by simp
  have hquiet : FileSystem.Volume.LeavesNothing (⟨s, none⟩ : fs.Volume) log log := by
    have hquiet : FileSystem.Volume.LeavesNothing (⟨s, none⟩ : fs.Volume) log (log ++ []) :=
      FileSystem.Volume.leavesNothing_of_quiet hnothing
    rw [List.append_nil] at hquiet
    exact hquiet
  unfold extractEntry at hentry
  split at hentry
  · cases hentry
    exact hquiet
  next out encodedPath hpath =>
  split at hentry
  · cases hentry
    exact hquiet
  split at hentry
  · cases hentry
    rw [x.host.perform_log]
    exact FileSystem.Volume.leavesNothing_of_quiet (by simp)
  split at hentry
  · cases hentry
    exact FileSystem.Volume.leavesNothing_of_quiet (by simp)
  split at hentry
  · cases hentry
    cases hfailed
  have hlog := x.host.perform_log (.newFile out h.modTime true) ec log
  dsimp only at hentry
  split at hentry
  · next hnew =>
    cases hentry
    intro path hleaves
    have hsplit : log ++ [.newFile out h.modTime true] =
        log ++ [] ++ .newFile out h.modTime true :: [] := by
      rw [List.append_nil]
    rw [hlog, hsplit] at hleaves
    obtain ⟨fd, hcurrent, -⟩ := hleaves.unique hnothing hnothing
    have hdisk : x.host.disk (log ++ [.newFile out h.modTime true]) ≠ none := by
      intro hnone
      rw [Host.perform_ok.mpr hnone] at hnew
      cases hnew
    rw [hruns] at hdisk
    rw [List.append_nil, FileSystem.Volume.current_newFile hdisk] at hcurrent
    cases hcurrent
  · next hnew =>
    rw [Bool.not_eq_true', Bool.not_eq_false] at hnew
    have hdisk := Host.perform_ok.mp hnew
    rw [hruns] at hdisk
    obtain ⟨fd, hopen⟩ := FileSystem.Volume.openAt_newFile hfs hkeeps hdisk
    obtain ⟨chunks, hchunks⟩ := extractData_failed hentry hfailed
    rw [hlog] at hchunks
    obtain ⟨added, hadded, hdata⟩ :=
      x.host.consumeAll_data (log ++ [.newFile out h.modTime true]) chunks
    have hstill := hopen.after hkeeps hdata
    rw [← FileSystem.Volume.after_append] at hstill
    intro path hleaves
    have hsplit : e.log = log ++ [] ++ .newFile out h.modTime true :: (added ++ [.discard]) := by
      rw [hchunks, hadded]
      simp
    have hclosed : FileSystem.Volume.after (⟨s, none⟩ : fs.Volume) e.log =
        ⟨fs.discardFd (FileSystem.Volume.after (⟨s, none⟩ : fs.Volume)
          (log ++ [.newFile out h.modTime true] ++ added)).state fd, none⟩ := by
      rw [hchunks, hadded, FileSystem.Volume.after_concat]
      unfold FileSystem.Volume.act
      rw [hstill.current]
    rw [hsplit] at hleaves
    have hrest : ∀ p m o, Action.newFile p m o ∉ added ++ [.discard] := by
      intro p m o hmem
      rcases List.mem_append.mp hmem with hmem | hmem
      · exact hdata _ hmem
      · simp at hmem
    obtain ⟨fd', hcurrent, hpresent⟩ := hleaves.unique hnothing hrest
    rw [List.append_nil, hopen.current] at hcurrent
    cases hcurrent
    rw [← hsplit, hclosed] at hpresent
    exact hpresent (hkeeps.discardFd_removes _ _)

end Baulk.Tar.Extractor

namespace Baulk.Archive

/-! ## Both archives -/

/-- In every extraction of a zip archive, a regular entry that goes wrong leaves no file
exactly if `NewFile` was not called for it or failed.  In a tar archive, an entry that
fails leaves no file. -/
theorem extract_leftovers (fs : FileSystem) (hfs : fs.Lawful) (hkeeps : fs.Keeps)
    (s : fs.State) (x : Zip.Extractor) (y : Tar.Extractor) (hx : x.host.RunsOn s)
    (hy : y.host.RunsOn s) :
    (∀ (fuel : Nat) (ec : ErrorCode), ∀ visit ∈ x.visited fuel ec,
      visit.file.isRegular = true → visit.Fails →
      (FileSystem.Volume.LeavesNothing ⟨s, none⟩ visit.log visit.result.log ↔
        ¬ x.Creates visit.index visit.file visit.log)) ∧
    ∀ (R : Tar.ExtractReader) (h : Tar.Header) (ec : ErrorCode) (log : Log)
      (r r' : Tar.Reader R) (e : Extracted),
      y.extractEntry h ec log r = some (e, r') → e.ok = false →
      FileSystem.Volume.LeavesNothing ⟨s, none⟩ log e.log := by
  refine ⟨?_, ?_⟩
  · intro fuel ec visit hvisit hregular _
    exact Zip.Extractor.leavesNothing_iff hfs hkeeps hx hregular
      (Zip.Extractor.extractEntry_of_mem_visited hvisit)
  · intro R h ec log r r' e hentry hfailed
    exact Tar.Extractor.leavesNothing_of_failed hfs hkeeps hy hentry hfailed

theorem putLeaf_self (s : List WString → Option Leaf) (names : List WString)
    (leaf : Option Leaf) : putLeaf s names leaf names = leaf :=
  if_pos rfl

theorem flatDisk_target {s : flatDisk.State} {path : WinPath} {content : Bytes}
    (h : s path.normalParts = some (.data content)) :
    flatDisk.target s path = some path.normalParts := by
  dsimp only [flatDisk]
  rw [h]

theorem flatDisk_createAlways {s s' : flatDisk.State} {path : WinPath} {o : flatDisk.Object}
    (h : flatDisk.createAlways s path = (.ok o, s')) :
    o = path.normalParts ∧ s' path.normalParts = some (.data []) := by
  dsimp only [flatDisk] at h
  split at h <;> cases h
  exact ⟨rfl, putLeaf_self s path.normalParts _⟩

theorem flatDisk_keeps : flatDisk.Keeps where
  createAlways_target s path o s' h := by
    obtain ⟨rfl, hleaf⟩ := flatDisk_createAlways h
    exact flatDisk_target hleaf
  createAlways_exists s path o s' h hnone := by
    obtain ⟨rfl, hleaf⟩ := flatDisk_createAlways h
    exact Option.some_ne_none _ (hleaf.symm.trans hnone)
  setFileTime_target _ _ _ := rfl
  writeFile_target s o chunk := by
    dsimp only [flatDisk]
    split
    · next content hdata =>
      funext path
      dsimp only [putLeaf]
      by_cases heq : path.normalParts = o
      · rw [if_pos heq, heq, hdata]
      · rw [if_neg heq]
    · rfl
  writeFile_exists s o chunk h := by
    dsimp only [flatDisk] at h ⊢
    split
    · exact fun hnone => Option.some_ne_none _ ((putLeaf_self s o _).symm.trans hnone)
    · exact h
  discardFd_removes s o := putLeaf_self s o none

def emptyDisk : flatDisk.State :=
  fun _ => none

def wrongChecksumEntry : Zip.File :=
  { Zip.oneByteEntry Zip.zipDeflate with name := narrow "a" }

/-- The deflated file "a", whose checksum is not the one that its entry has. -/
def wrongChecksum : Zip.Extractor :=
  { canceledLetter Zip.zipDeflate with
    files := [wrongChecksumEntry], host := keepingHost emptyDisk }

/-- The log when this extraction comes to its entry. -/
def wrongChecksumLog : Log :=
  [.createDirectories (WinPath.ofText (wide "C:\\d"))]

theorem wrongChecksumEntry_isRegular : wrongChecksumEntry.isRegular = true := by
  decide

theorem wrongChecksum_creates :
    wrongChecksum.Creates 0 wrongChecksumEntry wrongChecksumLog :=
  ⟨_, _, rfl, rfl, rfl⟩

theorem wrongChecksum_visited : ∃ r : Extracted,
    ⟨0, wrongChecksumEntry, {}, wrongChecksumLog, r⟩ ∈ wrongChecksum.visited 4 {} ∧
      r.ok = false ∧
      (FileSystem.Volume.after (⟨emptyDisk, none⟩ : flatDisk.Volume) r.log).state letterNames =
        some (.data [0x61]) := by
  have hentry : (wrongChecksum.extractEntry 4 0 wrongChecksumEntry {} wrongChecksumLog).map
      (fun r => (r.ok, (FileSystem.Volume.after (⟨emptyDisk, none⟩ : flatDisk.Volume)
        r.log).state letterNames)) = some (false, some (.data [0x61])) := by
    decide +kernel
  rw [Option.map_eq_some_iff] at hentry
  obtain ⟨r, hentry, hleft⟩ := hentry
  rw [Prod.mk.injEq] at hleft
  refine ⟨r, ?_, hleft⟩
  have hstart : wrongChecksum.visited 4 {} =
      wrongChecksum.visits 4 0 [wrongChecksumEntry] {} wrongChecksumLog := rfl
  rw [hstart, Zip.Extractor.visits, hentry]
  exact List.mem_cons_self

/-- The file of an entry with a wrong checksum is left. -/
theorem extract_leftovers_wrongChecksum : ∃ visit ∈ wrongChecksum.visited 4 {},
    visit.Fails ∧ wrongChecksum.Creates visit.index visit.file visit.log ∧
      ¬ FileSystem.Volume.LeavesNothing (⟨emptyDisk, none⟩ : flatDisk.Volume) visit.log
        visit.result.log := by
  obtain ⟨r, hvisit, hfailed, -⟩ := wrongChecksum_visited
  refine ⟨_, hvisit, .inl hfailed, wrongChecksum_creates, ?_⟩
  rw [(extract_leftovers flatDisk flatDisk_lawful flatDisk_keeps emptyDisk wrongChecksum
    (keepingTar emptyDisk) rfl rfl).1 4 {} _ hvisit
      wrongChecksumEntry_isRegular (.inl hfailed), not_not]
  exact wrongChecksum_creates

/-- The extraction of the deflated file "a" fails, and a file that holds its byte is at its
path. -/
theorem wrongChecksum_leaves :
    (∃ visit ∈ wrongChecksum.visited 4 {}, visit.result.ok = false ∧
      (FileSystem.Volume.after (⟨emptyDisk, none⟩ : flatDisk.Volume)
        visit.result.log).state letterNames = some (.data [0x61])) ∧
    ¬ ∀ visit ∈ wrongChecksum.visited 4 {}, visit.file.isRegular = true →
      visit.result.ok = false →
      FileSystem.Volume.LeavesNothing (⟨emptyDisk, none⟩ : flatDisk.Volume) visit.log
        visit.result.log := by
  obtain ⟨r, hvisit, hfailed, hleft⟩ := wrongChecksum_visited
  refine ⟨⟨_, hvisit, hfailed, hleft⟩, fun hclean => ?_⟩
  have hnothing := hclean _ hvisit wrongChecksumEntry_isRegular hfailed
  have hruns : wrongChecksum.host.RunsOn emptyDisk := rfl
  rw [Zip.Extractor.leavesNothing_iff flatDisk_lawful flatDisk_keeps hruns
    wrongChecksumEntry_isRegular (Zip.Extractor.extractEntry_of_mem_visited hvisit)] at hnothing
  exact hnothing wrongChecksum_creates

end Baulk.Archive
