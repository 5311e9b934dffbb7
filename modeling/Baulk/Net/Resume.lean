import Baulk.Net.FilePart

/-!
# Saving and resuming a partial download

What the operations of `FilePart` do to the file: `writeFull` appends a part of
its bytes, and all of them unless it fails; `saveOverlayData` appends the
trailer; `makeFilePart` strips it.  Over any number of cycles of resuming,
appending and saving the payload is what was appended.
-/

namespace Baulk.Net

namespace FilePart

/-! ## Appending -/

/-- The file holds `content` and is written at its end. -/
structure Appending (part : FilePart) (disk : Disk) (content : Bytes) :
    Prop where
  file : disk.files part.path = some content
  pos : part.pos = content.length

theorem content_eq {path : WString} {disk : Disk} {content : Bytes}
    (h : disk.files path = some content) : disk.content path = content := by
  rw [Disk.content, h, Option.getD_some]

@[simp]
theorem resized_length (content : Bytes) :
    resized content content.length = content := by
  simp [resized]

@[simp]
theorem written_length (content bytes : Bytes) :
    written content content.length bytes = content ++ bytes := by
  simp [written]

/-- How a write that has been asked for `bytes` ends: `m` of them are appended,
all of them if it succeeds. -/
structure Appends (env : DiskEnv) (bytes : Bytes) (part : FilePart)
    (disk : Disk) (content : Bytes)
    (r : Except ErrorCode Unit × FilePart × Disk) (m : Nat) : Prop where
  le : m ≤ bytes.length
  handle : r.2.1 = { part with pos := content.length + m }
  files : r.2.2.files =
    (disk.put part.path (some (content ++ bytes.take m))).files
  ok : r.1 = .ok () → m = bytes.length
  error : ∀ ec, r.1 = .error ec → bytes ≠ [] → m < bytes.length
  reliable : env.Reliable → r.1 = .ok ()

theorem put_self {path : WString} {disk : Disk} {content : Bytes}
    (h : disk.files path = some content) :
    (disk.put path (some content)).files = disk.files := by
  funext p
  by_cases hp : p = path
  · rw [hp, Disk.put_files_self, h]
  · rw [Disk.put_files_ne hp]

theorem writeLoop_appends (env : DiskEnv) {calls : Nat} {bytes : Bytes}
    (hcalls : bytes.length < calls) {part : FilePart} {disk : Disk}
    {content : Bytes} (h : part.Appending disk content) :
    ∃ m, Appends env bytes part disk content
      (writeLoop env calls bytes part disk) m := by
  induction calls generalizing bytes part disk content with
  | zero => omega
  | succ calls ih =>
      unfold writeLoop writeFile
      cases hfault : env.fault disk.calls with
      | some e =>
          refine ⟨0, Nat.zero_le _, ?_, ?_, ?_, ?_, ?_⟩
          · rw [Nat.add_zero, ← h.pos]
          · rw [List.take_zero, List.append_nil, put_self h.file]
            rfl
          · intro hok
            contradiction
          · intro ec _ hbytes
            exact List.length_pos_of_ne_nil hbytes
          · intro hreliable
            rw [hreliable] at hfault
            contradiction
      | none =>
          dsimp only
          generalize hn : min bytes.length
            (max 1 (env.shortWrite disk.calls)) = n
          rw [content_eq h.file, h.pos, written_length]
          split
          · rename_i hshort
            -- The rest of the bytes is appended to what is there now.
            have hnext : Appending { part with pos := content.length + n }
                (disk.call.put part.path (some (content ++ bytes.take n)))
                (content ++ bytes.take n) := by
              refine ⟨Disk.put_files_self _ _ _, ?_⟩
              rw [List.length_append, List.length_take]
              change content.length + n = _
              omega
            have hrest : (bytes.drop n).length < calls := by
              rw [List.length_drop]
              omega
            obtain ⟨m, hm⟩ := ih hrest hnext
            have hlength := hm.le
            rw [List.length_drop] at hlength
            refine ⟨n + m, by omega, ?_, ?_, ?_, ?_, hm.reliable⟩
            · rw [hm.handle, List.length_append, List.length_take]
              congr 1
              omega
            · rw [hm.files]
              funext p
              by_cases hp : p = part.path
              · rw [hp]
                simp only [Disk.put_files_self, List.append_assoc]
                rw [List.take_add]
              · rw [Disk.put_files_ne hp, Disk.put_files_ne hp,
                  Disk.put_files_ne hp, Disk.call_files]
            · intro hok
              have hall := hm.ok hok
              rw [List.length_drop] at hall
              omega
            · intro ec herror _
              have hless := hm.error ec herror (by
                rw [← List.length_pos_iff, List.length_drop]
                omega)
              rw [List.length_drop] at hless
              omega
          · rename_i hfull
            have hall : n = bytes.length := by omega
            subst hall
            refine ⟨bytes.length, le_rfl, rfl, rfl, fun _ => rfl, ?_,
              fun _ => rfl⟩
            intro ec herror
            contradiction

/-- `writeFull` of less than 4 GiB. -/
theorem writeFull_appends (env : DiskEnv) {bytes : Bytes}
    (hlt : bytes.length < 2 ^ 32) {part : FilePart} {disk : Disk}
    {content : Bytes} (h : part.Appending disk content) :
    ∃ m, Appends env bytes part disk content
      (writeFull env bytes part disk) m := by
  have hall : bytes.take (bytes.length % 2 ^ 32) = bytes := by
    rw [Nat.mod_eq_of_lt hlt, List.take_length]
  simp only [writeFull, hall]
  exact writeLoop_appends env (Nat.lt_succ_self _) h

/-! ## Saving -/

theorem seek_ok {env : DiskEnv} {pos : Int64} {part part' : FilePart}
    {disk disk' : Disk} (h : part.seek env pos disk = (.ok part', disk')) :
    part' = { part with pos := pos.toInt.toNat } ∧
      disk'.files = disk.files := by
  unfold seek at h
  split at h
  · cases h
  · split at h <;> cases h
    exact ⟨rfl, rfl⟩

/-- A trailer is saved behind the whole content of the file. -/
theorem saveOverlayData_ok {env : DiskEnv} {hashValue : WString}
    {totalBytes currentBytes : Int64} {part part' : FilePart}
    {disk disk' : Disk} {content : Bytes}
    (hfile : disk.files part.path = some content)
    (hlength : currentBytes.toInt = content.length)
    (h : part.saveOverlayData env hashValue totalBytes currentBytes disk =
      (.ok (), part', disk')) :
    part'.path = part.path ∧ part'.discardFileHandle = false ∧
      ∃ spec, hashConstruct hashValue = .ok spec ∧
        disk'.files = (disk.put part.path (some (content ++
          Overlay.encode ⟨spec, totalBytes, currentBytes, env.now⟩))).files := by
  unfold saveOverlayData at h
  split at h
  · cases h
  split at h
  · cases h
  split at h
  · cases h
  rename_i spec hspec
  dsimp only at h
  have hfiles₁ : (part.size env disk).2.files = disk.files := by
    unfold size
    split <;> rfl
  split at h
  · cases h
  split at h
  · cases h
  rename_i part₁ disk₂ hseek
  obtain ⟨rfl, hfiles₂⟩ := seek_ok hseek
  have happending : Appending { part with pos := currentBytes.toInt.toNat }
      disk₂ content := by
    refine ⟨?_, ?_⟩
    · rw [hfiles₂, hfiles₁]
      exact hfile
    · change currentBytes.toInt.toNat = content.length
      omega
  have hshort : (Overlay.encode
      ⟨spec, totalBytes, currentBytes, env.now⟩).length < 2 ^ 32 := by
    rw [Overlay.length_encode]
    decide
  obtain ⟨m, hm⟩ := writeFull_appends env hshort happending
  split at h
  · cases h
  · rename_i part₂ disk₃ hwrite
    rw [hwrite] at hm
    cases h
    have hpart := hm.handle
    have hdisk := hm.files
    rw [hm.ok rfl, List.take_length] at hdisk
    dsimp only at hpart hdisk
    refine ⟨by rw [hpart], rfl, spec, hspec, ?_⟩
    rw [hdisk]
    funext p
    simp only [Disk.put, hfiles₂, hfiles₁]

/-- Without faults a trailer can be saved if the sizes are right. -/
theorem saveOverlayData_reliable {env : DiskEnv} (henv : env.Reliable)
    {hashValue : WString} {spec : HashSpec}
    (hspec : hashConstruct hashValue = .ok spec)
    {totalBytes currentBytes : Int64} (htotal : 0 < totalBytes)
    (hcurrent : currentBytes ≠ 0) {part : FilePart} {disk : Disk}
    {content : Bytes} (hdiscard : part.discardFileHandle = true)
    (hfile : disk.files part.path = some content)
    (hlength : currentBytes.toInt = content.length) :
    ∃ part' disk',
      part.saveOverlayData env hashValue totalBytes currentBytes disk =
        (.ok (), part', disk') := by
  have hsize : Int64.ofNat content.length = currentBytes := by
    rw [← Int64.toInt_inj, hlength, Int64.toInt_ofNat_of_lt]
    have hlt := currentBytes.toInt_lt
    omega
  have hpositive : ¬ currentBytes < 0 := by
    rw [Int64.lt_iff_toInt_lt, Int64.toInt_zero]
    omega
  have hguard : ¬ (totalBytes ≤ 0 ∨ currentBytes = 0) := by
    rintro (hle | hzero)
    · exact absurd htotal (Int64.not_lt.mpr hle)
    · exact hcurrent hzero
  have happending : Appending { part with pos := currentBytes.toInt.toNat }
      disk.call.call content := by
    refine ⟨hfile, ?_⟩
    change currentBytes.toInt.toNat = content.length
    omega
  have hshort : (Overlay.encode
      ⟨spec, totalBytes, currentBytes, env.now⟩).length < 2 ^ 32 := by
    rw [Overlay.length_encode]
    decide
  obtain ⟨m, hm⟩ := writeFull_appends env hshort happending
  have hok := hm.reliable henv
  have hkeep : (!part.discardFileHandle) = false := by
    rw [hdiscard]
    rfl
  simp only [saveOverlayData, hkeep, Bool.false_eq_true, if_false, hguard,
    hspec, size, henv _, content_eq hfile, hsize, ne_eq, Except.toOption,
    Option.getD_some, not_true_eq_false, seek, hpositive]
  rcases hwrite : writeFull env _ _ disk.call.call with ⟨x, part', disk'⟩
  rw [hwrite] at hok
  dsimp only at hok
  subst hok
  exact ⟨_, _, rfl⟩

/-! ## Resuming -/

theorem truncatedFile_reliable {env : DiskEnv} (henv : env.Reliable) {n : Nat}
    (hn : n < 2 ^ 63) (part : FilePart) (disk : Disk) :
    part.truncatedFile env (Int64.ofNat n) disk =
      (.ok { part with pos := n },
        disk.call.call.put part.path
          (some (resized (disk.content part.path) n))) := by
  have hvalue := Int64.toInt_ofNat_of_lt hn
  have hpositive : ¬ Int64.ofNat n < 0 := by
    rw [Int64.lt_iff_toInt_lt, Int64.toInt_zero, hvalue]
    omega
  simp only [truncatedFile, seek, henv _, hpositive, if_false, hvalue,
    Int.toNat_natCast]
  rfl

theorem startOver_reliable {env : DiskEnv} (henv : env.Reliable)
    (part : FilePart) {disk : Disk} {content : Bytes}
    (hfile : disk.files part.path = some content)
    (hpos : content = [] → part.pos = 0) :
    ∃ disk', part.startOver env disk = (.ok { part with pos := 0 }, disk') ∧
      disk'.files = (disk.put part.path (some [])).files := by
  unfold startOver
  rw [content_eq hfile]
  split
  · rename_i hempty
    have hnil := List.eq_nil_of_length_eq_zero hempty
    subst hnil
    refine ⟨disk, ?_, (put_self hfile).symm⟩
    rw [← hpos rfl]
  · refine ⟨_, truncatedFile_reliable henv (by decide) part disk, ?_⟩
    funext q
    simp [Disk.put, resized]

theorem resized_of_le {content : Bytes} {n : Nat} (h : n ≤ content.length) :
    resized content n = content.take n := by
  simp [resized, Nat.sub_eq_zero_of_le h]

/-- A file longer than a trailer is cut off before a trailer that matches, and
emptied otherwise. -/
theorem resume_reliable {env : DiskEnv} (henv : env.Reliable) (spec : HashSpec)
    (part : FilePart) {disk : Disk} {content : Bytes}
    (hfile : disk.files part.path = some content)
    (hlong : overlaySize < content.length) (hlt : content.length < 2 ^ 63)
    {seekTo : Nat} (hseekTo : seekTo = content.length - overlaySize) :
    (overlayMatches spec (content.drop seekTo) = true →
      ∃ disk', part.resume env spec disk =
          (.ok { part with
            pos := seekTo
            totalBytes := overlayTotal (content.drop seekTo)
            currentBytes := overlayCurrent (content.drop seekTo)
            lasteTime := overlayTime (content.drop seekTo) }, disk') ∧
        disk'.files =
          (disk.put part.path (some (content.take seekTo))).files) ∧
    (overlayMatches spec (content.drop seekTo) = false →
      ∃ disk', part.resume env spec disk =
          (.ok { part with pos := 0 }, disk') ∧
        disk'.files = (disk.put part.path (some [])).files) := by
  have hvalue : (Int64.ofNat seekTo).toInt = seekTo :=
    Int64.toInt_ofNat_of_lt (by omega)
  have hpositive : ¬ Int64.ofNat seekTo < 0 := by
    rw [Int64.lt_iff_toInt_lt, Int64.toInt_zero, hvalue]
    omega
  have hseek : part.seek env (Int64.ofNat seekTo) disk =
      (.ok { part with pos := seekTo }, disk.call) := by
    simp only [seek, henv _, hpositive, if_false, hvalue, Int.toNat_natCast]
  have hread : disk.call.call.files part.path = some content := hfile
  constructor
  · intro hmatches
    have hcut : resized (disk.call.call.content part.path) seekTo =
        content.take seekTo := by
      rw [content_eq hread]
      exact resized_of_le (by omega)
    have htruncate := truncatedFile_reliable henv (n := seekTo) (by omega) part
      disk.call.call
    rw [hcut] at htruncate
    refine ⟨disk.call.call.call.call.put part.path (some (content.take seekTo)),
      ?_, rfl⟩
    simp only [resume, content_eq hfile, ← hseekTo]
    rw [hseek]
    simp only [henv _, hmatches, Bool.not_true, Bool.false_eq_true, if_false]
    rw [htruncate]
  · intro hmatches
    have hnonempty : content ≠ [] := by
      rw [← List.length_pos_iff]
      omega
    obtain ⟨disk', hresult, hfiles⟩ := startOver_reliable henv
      { part with pos := seekTo } hread
      fun hnil => absurd hnil hnonempty
    refine ⟨disk', ?_, hfiles⟩
    simp only [resume, content_eq hfile, ← hseekTo]
    rw [hseek]
    simp only [henv _, hmatches, Bool.not_false, if_true]
    exact hresult

/-- What `makeFilePart` finds in a file: the payload and the trailer. -/
def resumable (hashValue : WString) (content : Bytes) :
    Option (Bytes × Bytes) :=
  if content.length ≤ overlaySize ∨ hashValue = [] then none
  else
    match hashConstruct hashValue with
    | .error _ => none
    | .ok spec =>
        let seekTo := content.length - overlaySize
        if overlayMatches spec (content.drop seekTo) then
          some (content.take seekTo, content.drop seekTo)
        else none

/-- The payload of a file, empty if the download starts over. -/
def payload (hashValue : WString) (content : Bytes) : Bytes :=
  ((resumable hashValue content).map Prod.fst).getD []

/-- The part that `makeFilePart` returns for a file that holds `content`. -/
def opened (env : DiskEnv) (p : WinPath) (hashValue : WString)
    (content : Bytes) : FilePart :=
  match resumable hashValue content with
  | none => { path := partPath env p, fsPath := WinPath.absolute env.dirs p }
  | some (payload, overlay) =>
      { path := partPath env p, fsPath := WinPath.absolute env.dirs p
        pos := payload.length
        totalBytes := overlayTotal overlay
        currentBytes := overlayCurrent overlay
        lasteTime := overlayTime overlay }

@[simp]
theorem opened_path (env : DiskEnv) (p : WinPath) (hashValue : WString)
    (content : Bytes) :
    (opened env p hashValue content).path = partPath env p := by
  unfold opened
  split <;> rfl

@[simp]
theorem opened_discardFileHandle (env : DiskEnv) (p : WinPath)
    (hashValue : WString) (content : Bytes) :
    (opened env p hashValue content).discardFileHandle = true := by
  unfold opened
  split <;> rfl

@[simp]
theorem opened_valid (env : DiskEnv) (p : WinPath) (hashValue : WString)
    (content : Bytes) : (opened env p hashValue content).valid = true := by
  unfold opened
  split <;> rfl

theorem opened_pos (env : DiskEnv) (p : WinPath) (hashValue : WString)
    (content : Bytes) : (opened env p hashValue content).pos =
      (payload hashValue content).length := by
  unfold opened payload
  split <;> simp_all

/-- Without faults `makeFilePart` leaves the payload alone in the file. -/
theorem makeFilePart_reliable {env : DiskEnv} (henv : env.Reliable)
    (p : WinPath) (hashValue : WString) {disk : Disk} {content : Bytes}
    (hcontent : disk.content (partPath env p) = content)
    (hlt : content.length < 2 ^ 63) :
    ∃ disk', makeFilePart env p hashValue disk =
        (.ok (opened env p hashValue content), disk') ∧
      disk'.files = (disk.put (partPath env p)
        (some (payload hashValue content))).files := by
  have hsize : Int64.ofNat content.length ≤ Int64.ofNat overlaySize ↔
      content.length ≤ overlaySize := by
    rw [Int64.le_iff_toInt_le, Int64.toInt_ofNat_of_lt hlt,
      Int64.toInt_ofNat_of_lt (by decide)]
    exact Int.ofNat_le
  let fresh : FilePart :=
    { path := partPath env p, fsPath := WinPath.absolute env.dirs p }
  let diskOpen := disk.call.put fresh.path (some content)
  have hopen : diskOpen.call.files fresh.path = some content :=
    Disk.put_files_self _ _ _
  have hstart := startOver_reliable henv fresh hopen fun _ => rfl
  have hput : ∀ c, (diskOpen.call.put fresh.path c).files =
      (disk.put fresh.path c).files := by
    intro c
    funext q
    by_cases hq : q = fresh.path <;> simp [Disk.put, diskOpen, hq]
  have hmake : makeFilePart env p hashValue disk =
      if content.length ≤ overlaySize ∨ hashValue = [] then
        fresh.startOver env diskOpen.call
      else
        match hashConstruct hashValue with
        | .error _ => fresh.startOver env diskOpen.call
        | .ok spec => fresh.resume env spec diskOpen.call := by
    simp only [makeFilePart, henv _, size, hcontent, ← hsize]
    rewrite [content_eq (Disk.put_files_self _ _ _)]
    rfl
  rw [hmake]
  have hrestart : ∀ (hnone : resumable hashValue content = none),
      ∃ disk', fresh.startOver env diskOpen.call =
          (.ok (opened env p hashValue content), disk') ∧
        disk'.files = (disk.put (partPath env p)
          (some (payload hashValue content))).files := by
    intro hnone
    obtain ⟨disk', hresult, hfiles⟩ := hstart
    rw [opened, payload, hnone]
    exact ⟨disk', hresult, hfiles.trans (hput _)⟩
  by_cases hfresh : content.length ≤ overlaySize ∨ hashValue = []
  · rw [if_pos hfresh]
    exact hrestart (by rw [resumable, if_pos hfresh])
  rw [if_neg hfresh]
  cases hspec : hashConstruct hashValue with
  | error ec => exact hrestart (by rw [resumable, if_neg hfresh, hspec])
  | ok spec =>
      have hlong : overlaySize < content.length := by
        by_contra hshort
        exact hfresh (.inl (Nat.le_of_not_lt hshort))
      have hresume := resume_reliable henv spec fresh hopen hlong hlt rfl
      cases hmatches : overlayMatches spec
          (content.drop (content.length - overlaySize)) with
      | true =>
          obtain ⟨disk', hresult, hfiles⟩ := hresume.1 hmatches
          have hsome : resumable hashValue content =
              some (content.take (content.length - overlaySize),
                content.drop (content.length - overlaySize)) := by
            simp only [resumable, if_neg hfresh, hspec, hmatches, if_true]
          rw [opened, payload, hsome]
          refine ⟨disk', ?_, hfiles.trans (hput _)⟩
          dsimp only
          rw [hresult, List.length_take_of_le (Nat.sub_le _ _)]
      | false =>
          obtain ⟨disk', hresult, hfiles⟩ := hresume.2 hmatches
          have hnone : resumable hashValue content = none := by
            simp only [resumable, if_neg hfresh, hspec, hmatches,
              Bool.false_eq_true, if_false]
          rw [opened, payload, hnone]
          exact ⟨disk', hresult, hfiles.trans (hput _)⟩

/-! ## Saved payloads -/

theorem resumable_encode {hashValue : WString} (hhash : hashValue ≠ [])
    {o : Overlay} (hspec : hashConstruct hashValue = .ok o.spec)
    {content : Bytes} (hcontent : content ≠ []) :
    resumable hashValue (content ++ o.encode) = some (content, o.encode) := by
  have hpositive := List.length_pos_of_ne_nil hcontent
  have hlength : (content ++ o.encode).length = content.length + overlaySize := by
    rw [List.length_append, o.length_encode]
  have hguard : ¬ ((content ++ o.encode).length ≤ overlaySize ∨
      hashValue = []) := by
    rintro (hle | hempty)
    · omega
    · exact hhash hempty
  have hseekTo : (content ++ o.encode).length - overlaySize = content.length := by
    omega
  simp only [resumable, if_neg hguard, hspec, hseekTo, List.drop_left,
    List.take_left, o.overlayMatches_encode, if_true]

theorem payload_encode {hashValue : WString} (hhash : hashValue ≠ [])
    {o : Overlay} (hspec : hashConstruct hashValue = .ok o.spec)
    {content : Bytes} (hcontent : content ≠ []) :
    payload hashValue (content ++ o.encode) = content := by
  rw [payload, resumable_encode hhash hspec hcontent]
  rfl

/-- A file from which a download goes on behind `content`. -/
structure Parked (hashValue : WString) (content file : Bytes) : Prop where
  length_lt : file.length < 2 ^ 63
  payload_eq : payload hashValue file = content
  current_eq : ∀ {payload overlay},
    resumable hashValue file = some (payload, overlay) →
      (overlayCurrent overlay).toInt = payload.length

theorem parked_nil (hashValue : WString) : Parked hashValue [] [] where
  length_lt := by decide
  payload_eq := rfl
  current_eq h := by cases h

theorem parked_encode {hashValue : WString} (hhash : hashValue ≠ [])
    {o : Overlay} (hspec : hashConstruct hashValue = .ok o.spec)
    {content : Bytes} (hcontent : content ≠ [])
    (hcurrent : o.currentBytes.toInt = content.length)
    (hlt : content.length + overlaySize < 2 ^ 63) :
    Parked hashValue content (content ++ o.encode) where
  length_lt := by
    rw [List.length_append, o.length_encode]
    exact hlt
  payload_eq := payload_encode hhash hspec hcontent
  current_eq h := by
    rw [resumable_encode hhash hspec hcontent] at h
    cases h
    rw [o.overlayCurrent_encode, hcurrent]

theorem Parked.opened_currentBytes {hashValue : WString} {content file : Bytes}
    (h : Parked hashValue content file) (env : DiskEnv) (p : WinPath) :
    (opened env p hashValue file).currentBytes.toInt = content.length := by
  rw [← h.payload_eq, opened, payload]
  cases hresumable : resumable hashValue file with
  | none => rfl
  | some found => exact h.current_eq hresumable

/-! ## Cycles -/

/-- Write one piece after the other. -/
def appendAll (env : DiskEnv) : List Bytes → FilePart → Disk →
    Except ErrorCode Unit × FilePart × Disk
  | [], part, disk => (.ok (), part, disk)
  | piece :: pieces, part, disk =>
      match part.writeFull env piece disk with
      | (.error ec, part, disk) => (.error ec, part, disk)
      | (.ok (), part, disk) => appendAll env pieces part disk

/-- One time that a download goes on: the pieces that arrive and the total that
is saved. -/
structure Cycle where
  env : DiskEnv
  pieces : List Bytes
  totalBytes : Int64

/-- Resume, append, save and destroy. -/
def runCycle (p : WinPath) (hashValue : WString) (cycle : Cycle) (disk : Disk) :
    Except ErrorCode Disk :=
  match makeFilePart cycle.env p hashValue disk with
  | (.error ec, _) => .error ec
  | (.ok part, disk) =>
      match appendAll cycle.env cycle.pieces part disk with
      | (.error ec, _, _) => .error ec
      | (.ok (), part, disk) =>
          let saved := part.saveOverlayData cycle.env hashValue cycle.totalBytes
            (part.currentBytes + Int64.ofNat cycle.pieces.flatten.length) disk
          .ok (saved.2.1.fileDiscard cycle.env saved.2.2)

def runCycles (p : WinPath) (hashValue : WString) :
    List Cycle → Disk → Except ErrorCode Disk
  | [], disk => .ok disk
  | cycle :: cycles, disk =>
      match runCycle p hashValue cycle disk with
      | .error ec => .error ec
      | .ok disk => runCycles p hashValue cycles disk

theorem appendAll_reliable {env : DiskEnv} (henv : env.Reliable)
    {pieces : List Bytes} (hpieces : ∀ piece ∈ pieces, piece.length < 2 ^ 32)
    {part : FilePart} {disk : Disk} {content : Bytes}
    (h : part.Appending disk content) :
    ∃ disk', appendAll env pieces part disk =
        (.ok (), { part with
          pos := content.length + pieces.flatten.length }, disk') ∧
      disk'.files =
        (disk.put part.path (some (content ++ pieces.flatten))).files := by
  induction pieces generalizing part disk content with
  | nil =>
      refine ⟨disk, ?_, ?_⟩
      · rw [appendAll, List.flatten_nil, List.length_nil, Nat.add_zero, ← h.pos]
      · rw [List.flatten_nil, List.append_nil, put_self h.file]
  | cons piece pieces ih =>
      obtain ⟨m, hm⟩ := writeFull_appends env
        (hpieces piece List.mem_cons_self) h
      rcases hwrite : part.writeFull env piece disk with ⟨x, part₁, disk₁⟩
      rw [hwrite] at hm
      have hok : x = .ok () := hm.reliable henv
      have hall := hm.ok hok
      have hpart := hm.handle
      have hfiles := hm.files
      dsimp only at hpart hfiles
      rw [hall] at hpart
      rw [hall, List.take_length] at hfiles
      subst hok hpart
      have hnext : Appending
          { part with pos := content.length + piece.length } disk₁
          (content ++ piece) := by
        refine ⟨?_, ?_⟩
        · rw [hfiles]
          exact Disk.put_files_self _ _ _
        · rw [List.length_append]
      obtain ⟨disk', hrest, hdisk⟩ := ih
        (fun q hq => hpieces q (List.mem_cons_of_mem _ hq)) hnext
      refine ⟨disk', ?_, ?_⟩
      · rw [appendAll, hwrite]
        dsimp only
        rw [hrest, List.flatten_cons]
        simp only [List.length_append, Nat.add_assoc]
      · rw [hdisk, List.flatten_cons, ← List.append_assoc]
        funext q
        simp only [Disk.put, hfiles]
        split <;> rfl

/-- A cycle in which no call fails and no piece is as long as 4 GiB. -/
structure Cycle.Sound (path : WString) (p : WinPath) (cycle : Cycle) :
    Prop where
  reliable : cycle.env.Reliable
  path_eq : partPath cycle.env p = path
  total_pos : 0 < cycle.totalBytes
  pieces_lt : ∀ piece ∈ cycle.pieces, piece.length < 2 ^ 32

theorem toInt_add_of_lt {x y : Int64} (hx : 0 ≤ x.toInt) (hy : 0 ≤ y.toInt)
    (hlt : x.toInt + y.toInt < 2 ^ 63) :
    (x + y).toInt = x.toInt + y.toInt := by
  rw [Int64.toInt_add, Int.bmod_eq_of_le (by omega) (by omega)]

theorem add_ofNat_toInt {x : Int64} {m n : Nat} (hx : x.toInt = m)
    (hlt : m + n < 2 ^ 63) : (x + Int64.ofNat n).toInt = (m + n : Nat) := by
  have hn : (Int64.ofNat n).toInt = n := Int64.toInt_ofNat_of_lt (by omega)
  rw [toInt_add_of_lt (by omega) (by omega) (by omega), hx, hn]
  rfl

theorem runCycle_parked {path : WString} {p : WinPath} {hashValue : WString}
    (hhash : hashValue ≠ []) {spec : HashSpec}
    (hspec : hashConstruct hashValue = .ok spec) {cycle : Cycle}
    (hcycle : cycle.Sound path p) {disk : Disk} {content : Bytes}
    (h : Parked hashValue content (disk.content path))
    (hlt : (content ++ cycle.pieces.flatten).length + overlaySize < 2 ^ 63) :
    ∃ disk', runCycle p hashValue cycle disk = .ok disk' ∧
      Parked hashValue (content ++ cycle.pieces.flatten)
        (disk'.content path) := by
  obtain ⟨env, pieces, totalBytes⟩ := cycle
  obtain ⟨henv, hpath, htotal, hpieces⟩ := hcycle
  dsimp only at henv hpath htotal hpieces hlt ⊢
  subst hpath
  obtain ⟨disk₁, hmake, hfiles₁⟩ :=
    makeFilePart_reliable henv p hashValue rfl h.length_lt
  rw [h.payload_eq] at hfiles₁
  generalize hpart : opened env p hashValue (disk.content (partPath env p)) =
    part at hmake
  have hpartPath : part.path = partPath env p := by rw [← hpart, opened_path]
  have happending : part.Appending disk₁ content := by
    refine ⟨?_, ?_⟩
    · rw [hfiles₁, hpartPath, Disk.put_files_self]
    · rw [← hpart, opened_pos, h.payload_eq]
  obtain ⟨disk₂, happend, hfiles₂⟩ :=
    appendAll_reliable henv hpieces happending
  have hfile₂ : disk₂.files part.path = some (content ++ pieces.flatten) := by
    rw [hfiles₂, Disk.put_files_self]
  have hcurrent : (part.currentBytes +
      Int64.ofNat pieces.flatten.length).toInt =
        (content ++ pieces.flatten).length := by
    rw [List.length_append] at hlt ⊢
    refine add_ofNat_toInt ?_ (by omega)
    rw [← hpart, h.opened_currentBytes]
  rw [runCycle, hmake]
  dsimp only
  rw [happend]
  dsimp only
  refine ⟨_, rfl, ?_⟩
  by_cases hempty : content ++ pieces.flatten = []
  · -- Nothing is saved and the destructor removes the file.
    have hzero : part.currentBytes + Int64.ofNat pieces.flatten.length = 0 := by
      rw [← Int64.toInt_inj, hcurrent, hempty]
      rfl
    have hdiscard : part.discardFileHandle = true := by
      rw [← hpart, opened_discardFileHandle]
    have hvalid : part.valid = true := by rw [← hpart, opened_valid]
    have hremoved : (disk₂.call.put part.path none).content (partPath env p) =
        [] := by
      rw [← hpartPath, Disk.content, Disk.put_files_self]
      rfl
    rw [hempty]
    simp only [saveOverlayData, hdiscard, Bool.not_true, Bool.false_eq_true,
      if_false, hzero, or_true, if_true, fileDiscard, hvalid, Bool.and_self,
      dispositionFileHandle, henv _, hremoved]
    exact parked_nil hashValue
  · have hnonzero : part.currentBytes + Int64.ofNat pieces.flatten.length ≠
        0 := by
      intro hzero
      rw [hzero] at hcurrent
      exact hempty (List.eq_nil_of_length_eq_zero (Int.ofNat_inj.mp
        hcurrent.symm))
    let part₂ : FilePart :=
      { part with pos := content.length + pieces.flatten.length }
    have hdiscard : part₂.discardFileHandle = true := by
      change part.discardFileHandle = true
      rw [← hpart, opened_discardFileHandle]
    have hfile₂ : disk₂.files part₂.path = some (content ++ pieces.flatten) :=
      hfile₂
    obtain ⟨part₃, disk₃, hsave⟩ := saveOverlayData_reliable henv hspec htotal
      hnonzero hdiscard hfile₂ hcurrent
    obtain ⟨-, hkept, spec', hspec', hfiles₃⟩ :=
      saveOverlayData_ok hfile₂ hcurrent hsave
    rw [hsave]
    simp only [fileDiscard, hkept, Bool.and_false, Bool.false_eq_true, if_false]
    rw [← hpartPath, content_eq (by rw [hfiles₃, Disk.put_files_self])]
    exact parked_encode hhash hspec' hempty hcurrent hlt

theorem runCycles_parked {path : WString} {p : WinPath} {hashValue : WString}
    (hhash : hashValue ≠ []) {spec : HashSpec}
    (hspec : hashConstruct hashValue = .ok spec) {cycles : List Cycle}
    (hcycles : ∀ cycle ∈ cycles, cycle.Sound path p) {disk : Disk}
    {content : Bytes} (h : Parked hashValue content (disk.content path))
    (hlt : (content ++ cycles.flatMap fun c => c.pieces.flatten).length +
      overlaySize < 2 ^ 63) :
    ∃ disk', runCycles p hashValue cycles disk = .ok disk' ∧
      Parked hashValue (content ++ cycles.flatMap fun c => c.pieces.flatten)
        (disk'.content path) := by
  induction cycles generalizing disk content with
  | nil =>
      rw [List.flatMap_nil, List.append_nil]
      exact ⟨disk, rfl, h⟩
  | cons cycle cycles ih =>
      rw [List.flatMap_cons, ← List.append_assoc] at hlt ⊢
      have hfirst : (content ++ cycle.pieces.flatten).length + overlaySize <
          2 ^ 63 := by
        rw [List.length_append] at hlt
        omega
      obtain ⟨disk₁, hrun, hparked⟩ := runCycle_parked hhash hspec
        (hcycles cycle List.mem_cons_self) h hfirst
      rw [runCycles, hrun]
      exact ih (fun c hc => hcycles c (List.mem_cons_of_mem _ hc)) hparked hlt

/-! ## Resuming what was saved -/

/-- `makeFilePart` goes on behind `content`. -/
def Resumes (env : DiskEnv) (p : WinPath) (hashValue : WString)
    (content : Bytes) (disk : Disk) (totals : Int64 → Prop) : Prop :=
  ∃ part disk', makeFilePart env p hashValue disk = (.ok part, disk') ∧
    disk'.files part.path = some content ∧ totals part.totalBytes ∧
    part.currentBytes.toInt = content.length ∧ part.pos = content.length

theorem Parked.resumes {env : DiskEnv} (henv : env.Reliable) {p : WinPath}
    {hashValue : WString} {content : Bytes} {disk : Disk}
    (h : Parked hashValue content (disk.content (partPath env p)))
    {totals : Int64 → Prop} (htotal : totals
      (opened env p hashValue (disk.content (partPath env p))).totalBytes) :
    Resumes env p hashValue content disk totals := by
  obtain ⟨disk', hmake, hfiles⟩ :=
    makeFilePart_reliable henv p hashValue rfl h.length_lt
  refine ⟨_, disk', hmake, ?_, htotal, h.opened_currentBytes env p, ?_⟩
  · rw [hfiles, opened_path, Disk.put_files_self, h.payload_eq]
  · rw [opened_pos, h.payload_eq]

theorem Resumes.payload_eq {env : DiskEnv} (henv : env.Reliable) {p : WinPath}
    {hashValue : WString} {content : Bytes} {disk : Disk}
    (hlt : (disk.content (partPath env p)).length < 2 ^ 63)
    {totals : Int64 → Prop} (h : Resumes env p hashValue content disk totals) :
    payload hashValue (disk.content (partPath env p)) = content := by
  obtain ⟨part, disk', hmake, hfile, -⟩ := h
  obtain ⟨disk'', hmake', hfiles⟩ :=
    makeFilePart_reliable henv p hashValue rfl hlt
  rw [hmake] at hmake'
  cases hmake'
  rw [hfiles, opened_path, Disk.put_files_self] at hfile
  exact Option.some_inj.mp hfile

theorem not_resumes_nil {env : DiskEnv} (henv : env.Reliable) {p : WinPath}
    {content : Bytes} (hcontent : content ≠ []) {disk : Disk}
    (hlt : (disk.content (partPath env p)).length < 2 ^ 63)
    {totals : Int64 → Prop} : ¬ Resumes env p [] content disk totals := by
  intro hresumes
  refine hcontent ?_
  rw [← hresumes.payload_eq henv hlt, payload, resumable, if_pos (.inr rfl)]
  rfl

/-- A saved payload is resumed as it was saved, and over any number of cycles
the file that is resumed holds everything that was appended to it. -/
theorem saved_resumes {hashValue : WString} (hhash : hashValue ≠ []) :
    (∀ {envSave env : DiskEnv} {p : WinPath} {part part' : FilePart}
      {disk disk' later : Disk} {content : Bytes}
      {totalBytes currentBytes : Int64},
      content ≠ [] → content.length + overlaySize < 2 ^ 63 →
      disk.files part.path = some content →
      currentBytes.toInt = content.length →
      part.saveOverlayData envSave hashValue totalBytes currentBytes disk =
        (.ok (), part', disk') →
      later.files part.path = (part'.fileDiscard envSave disk').files part.path →
      env.Reliable → partPath env p = part.path →
      Resumes env p hashValue content later (· = totalBytes)) ∧
    (∀ {env : DiskEnv} {p : WinPath} {spec : HashSpec} {cycles : List Cycle}
      {disk : Disk} {content : Bytes},
      hashConstruct hashValue = .ok spec →
      (∀ cycle ∈ cycles, cycle.Sound (partPath env p) p) →
      Parked hashValue content (disk.content (partPath env p)) →
      (content ++ cycles.flatMap fun c => c.pieces.flatten).length +
        overlaySize < 2 ^ 63 →
      env.Reliable →
      ∃ disk', runCycles p hashValue cycles disk = .ok disk' ∧
        Resumes env p hashValue
          (content ++ cycles.flatMap fun c => c.pieces.flatten) disk'
          fun _ => True) := by
  constructor
  · intro envSave env p part part' disk disk' later content totalBytes
      currentBytes hcontent hlt hfile hcurrent hsave hlater henv hpath
    obtain ⟨hpart, hkept, spec, hspec, hfiles⟩ :=
      saveOverlayData_ok hfile hcurrent hsave
    simp only [fileDiscard, hkept, Bool.and_false, Bool.false_eq_true,
      if_false] at hlater
    rw [hfiles, Disk.put_files_self] at hlater
    rw [← hpath] at hlater
    have hparked := parked_encode (o := ⟨spec, totalBytes, currentBytes,
      envSave.now⟩) hhash hspec hcontent hcurrent hlt
    rw [← content_eq hlater] at hparked
    refine hparked.resumes henv ?_
    rw [content_eq hlater, opened, resumable_encode hhash hspec hcontent]
    exact Overlay.overlayTotal_encode _
  · intro env p spec cycles disk content hspec hcycles hparked hlt henv
    obtain ⟨disk', hrun, hparked'⟩ :=
      runCycles_parked hhash hspec hcycles hparked hlt
    exact ⟨disk', hrun, hparked'.resumes henv trivial⟩

/-! ### A download of one byte -/

/-- `C:\`. -/
def driveRoot : WinPath where
  rootName := wide "C:"
  rootDir := true
  parts := []
  trailing := false
  parts_valid := by simp
  root_valid := by simp

/-- `C:\a`. -/
def letterPath : WinPath where
  rootName := wide "C:"
  rootDir := true
  parts := [wide "a"]
  trailing := false
  parts_valid := by
    intro c hc
    rw [List.mem_singleton.mp hc]
    simp [wide, isPathSeparator]
  root_valid := nofun

/-- A system on which every call succeeds at once. -/
def reliableEnv : DiskEnv where
  dirs := ⟨driveRoot, fun _ => driveRoot⟩
  fault _ := none
  shortWrite _ := 2 ^ 32
  now := 0

theorem reliableEnv_reliable : reliableEnv.Reliable :=
  fun _ => rfl

/-- The partial file of `letterPath`, with one byte in it. -/
def letterPart : FilePart :=
  { path := partPath reliableEnv letterPath, fsPath := letterPath }

def emptyDisk : Disk :=
  { files := fun _ => none }

def letterDisk : Disk :=
  emptyDisk.put (partPath reliableEnv letterPath) (some [0x61])

/-- An empty hash is accepted when the trailer is saved, and refused when it is
read. -/
theorem emptyHash_not_resumes :
    let saved := letterPart.saveOverlayData reliableEnv [] 2 1 letterDisk
    saved.1.toOption = some () ∧
      ¬ Resumes reliableEnv letterPath [] [0x61]
        (saved.2.1.fileDiscard reliableEnv saved.2.2) (· = 2) := by
  refine ⟨by decide, ?_⟩
  exact not_resumes_nil reliableEnv_reliable (by decide) (by decide +kernel)

/-- One byte saved and resumed, and two more bytes appended to it. -/
theorem letterHash_resumes :
    (∃ part' disk',
      letterPart.saveOverlayData reliableEnv (wide "61") 2 1 letterDisk =
          (.ok (), part', disk') ∧
        Resumes reliableEnv letterPath (wide "61") [0x61]
          (part'.fileDiscard reliableEnv disk') (· = 2)) ∧
      ∃ disk', runCycles letterPath (wide "61")
          [⟨reliableEnv, [[0x61], [0x62]], 3⟩] emptyDisk = .ok disk' ∧
        Resumes reliableEnv letterPath (wide "61") [0x61, 0x62] disk'
          fun _ => True := by
  have hhash : wide "61" ≠ [] := by decide
  have hspec : ∃ spec, hashConstruct (wide "61") = .ok spec := ⟨_, rfl⟩
  obtain ⟨spec, hspec⟩ := hspec
  have hfile : letterDisk.files letterPart.path = some [0x61] :=
    Disk.put_files_self _ _ _
  have hdiscard : letterPart.discardFileHandle = true := rfl
  obtain ⟨part', disk', hsave⟩ := saveOverlayData_reliable reliableEnv_reliable
    hspec (by decide : (0 : Int64) < 2) (by decide : (1 : Int64) ≠ 0) hdiscard
    hfile rfl
  refine ⟨⟨part', disk', hsave, ?_⟩, ?_⟩
  · exact (saved_resumes hhash).1 (by decide) (by decide) hfile rfl hsave rfl
      reliableEnv_reliable rfl
  · let cycle : Cycle := ⟨reliableEnv, [[0x61], [0x62]], 3⟩
    have hsound : ∀ c ∈ [cycle],
        c.Sound (partPath reliableEnv letterPath) letterPath := by
      intro c hc
      rw [List.mem_singleton] at hc
      subst hc
      exact ⟨reliableEnv_reliable, rfl, by decide, by decide⟩
    have hnil : Parked (wide "61") []
        (emptyDisk.content (partPath reliableEnv letterPath)) := parked_nil _
    exact (saved_resumes hhash).2 hspec hsound hnil (by decide)
      reliableEnv_reliable

end FilePart

end Baulk.Net
