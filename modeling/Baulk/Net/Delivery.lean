import Baulk.Net.Resume
import Baulk.Net.WinGet

/-!
# What a download delivers

`WinGet` ignores the results of its writes and of the final rename, and counts
the bytes that were announced in place of those that were read.  The file it
names is therefore the one that was received only as far as the writes and the
rename succeed and no more bytes are missing than were announced in excess.
-/

namespace Baulk.Net

open FilePart

/-! ## What is received -/

/-- The bytes that the reads return. -/
def receivedBytes : List Round → Bytes
  | .received announced bytes _ :: rounds =>
      if 0 < announced then bytes ++ receivedBytes rounds else []
  | _ => []

def announcedBytes : List Round → Nat
  | .received announced _ _ :: rounds =>
      if 0 < announced then announced.toNat + announcedBytes rounds else 0
  | _ => 0

/-- The number of bytes that the reads return less than were announced. -/
def missingBytes : List Round → Nat
  | .received announced bytes _ :: rounds =>
      if 0 < announced then
        announced.toNat - bytes.length + missingBytes rounds
      else 0
  | _ => 0

theorem announcedBytes_eq (rounds : List Round) :
    announcedBytes rounds =
      (receivedBytes rounds).length + missingBytes rounds := by
  induction rounds with
  | nil => rfl
  | cons round rounds ih =>
      cases round with
      | unavailable e => rfl
      | unread announced e => rfl
      | received announced bytes le =>
          unfold announcedBytes receivedBytes missingBytes
          split
          · rw [List.length_append, ih]
            omega
          · rfl

def WritesSucceed (env : DiskEnv) : List Round → FilePart → Disk → Prop
  | .received announced bytes _ :: rounds, part, disk =>
      let written := part.writeFull env bytes disk
      (bytes ≠ [] → written.1 = .ok ()) ∧
        (0 < announced → WritesSucceed env rounds written.2.1 written.2.2)
  | _, _, _ => True

def afterWrites (env : DiskEnv) :
    List Round → FilePart → Disk → FilePart × Disk
  | .received announced bytes _ :: rounds, part, disk =>
      let written := part.writeFull env bytes disk
      if 0 < announced then afterWrites env rounds written.2.1 written.2.2
      else written.2
  | _, part, disk => (part, disk)

theorem receive_state {env : DiskEnv} {rounds : List Round}
    {currentBytes : Int64} {part : FilePart} {disk : Disk} {got : Received}
    (h : receive env rounds currentBytes part disk = some got) :
    (got.part, got.disk) = afterWrites env rounds part disk := by
  induction rounds generalizing currentBytes part disk with
  | nil => cases h
  | cons round rounds ih =>
      cases round with
      | unavailable e =>
          cases h
          rfl
      | unread announced e =>
          cases h
          rfl
      | received announced bytes le =>
          unfold receive at h
          unfold afterWrites
          dsimp only at h ⊢
          split at h
          · rename_i hmore
            rw [if_pos hmore]
            exact ih h
          · rename_i hlast
            rw [if_neg hlast]
            cases h
            rfl

theorem appending_take {part : FilePart} {disk disk' : Disk}
    {content bytes : Bytes} {m : Nat} (hm : m ≤ bytes.length) (hfiles : disk'.files =
      (disk.put part.path (some (content ++ bytes.take m))).files) :
    Appending { part with pos := content.length + m } disk'
      (content ++ bytes.take m) := by
  refine ⟨?_, ?_⟩
  · rw [hfiles]
    exact Disk.put_files_self _ _ _
  · rw [List.length_append, List.length_take_of_le hm]

theorem writesSucceed_of_reliable {env : DiskEnv} (henv : env.Reliable)
    {rounds : List Round} {part : FilePart} {disk : Disk} {content : Bytes}
    (h : part.Appending disk content) :
    WritesSucceed env rounds part disk := by
  induction rounds generalizing part disk content with
  | nil => trivial
  | cons round rounds ih =>
      cases round with
      | unavailable e => trivial
      | unread announced e => trivial
      | received announced bytes le =>
          have hlt : bytes.length < 2 ^ 32 :=
            Nat.lt_of_le_of_lt le announced.toNat_lt
          obtain ⟨m, hm⟩ := writeFull_appends env hlt h
          have hnext := appending_take hm.le hm.files
          rw [← hm.handle] at hnext
          exact ⟨fun _ => hm.reliable henv, fun _ => ih hnext⟩

/-- How the receive loop ends: it has appended `kept`, which is everything that
was received if the writes succeed, and has counted what was announced. -/
structure Keeps (env : DiskEnv) (rounds : List Round) (currentBytes : Int64)
    (part : FilePart) (disk : Disk) (content : Bytes) (got : Received)
    (kept : Bytes) : Prop where
  handle : got.part = { part with pos := content.length + kept.length }
  files : got.disk.files =
    (disk.put part.path (some (content ++ kept))).files
  le : kept.length ≤ (receivedBytes rounds).length
  kept_iff : kept = receivedBytes rounds ↔ WritesSucceed env rounds part disk
  current : got.currentBytes = currentBytes + Int64.ofNat (announcedBytes rounds)

theorem Keeps.nil {env : DiskEnv} {rounds : List Round} {currentBytes : Int64}
    {part : FilePart} {disk : Disk} {content : Bytes}
    (h : part.Appending disk content) (error : Option ErrorCode)
    (hreceived : receivedBytes rounds = [])
    (hannounced : announcedBytes rounds = 0)
    (hwrites : WritesSucceed env rounds part disk) :
    Keeps env rounds currentBytes part disk content
      { error, currentBytes, part, disk } [] where
  handle := by rw [List.length_nil, Nat.add_zero, ← h.pos]
  files := by rw [List.append_nil, put_self h.file]
  le := Nat.zero_le _
  kept_iff := by simp only [hreceived, hwrites]
  current := by
    rw [hannounced]
    exact (Int64.add_zero _).symm

theorem receive_keeps {env : DiskEnv} {rounds : List Round}
    {currentBytes : Int64} {part : FilePart} {disk : Disk} {content : Bytes}
    (h : part.Appending disk content) {got : Received}
    (hgot : receive env rounds currentBytes part disk = some got) :
    ∃ kept, Keeps env rounds currentBytes part disk content got kept := by
  induction rounds generalizing currentBytes part disk content with
  | nil => cases hgot
  | cons round rounds ih =>
      cases round with
      | unavailable e =>
          cases hgot
          exact ⟨[], Keeps.nil h _ rfl rfl trivial⟩
      | unread announced e =>
          cases hgot
          exact ⟨[], Keeps.nil h _ rfl rfl trivial⟩
      | received announced bytes le =>
          have hlt : bytes.length < 2 ^ 32 :=
            Nat.lt_of_le_of_lt le announced.toNat_lt
          obtain ⟨m, hm⟩ := writeFull_appends env hlt h
          rcases hwrite : part.writeFull env bytes disk with
            ⟨x, part₁, disk₁⟩
          rw [hwrite] at hm
          obtain ⟨hle, rfl, hfiles, hok, herror, -⟩ := hm
          dsimp only at hfiles hok herror
          simp only [receive, hwrite] at hgot
          have hnext := appending_take hle hfiles
          by_cases hmore : 0 < announced
          · rw [if_pos hmore] at hgot
            obtain ⟨kept, hkept⟩ := ih hnext hgot
            have hle' := hkept.le
            refine ⟨bytes.take m ++ kept, ?_, ?_, ?_, ?_, ?_⟩
            · rw [hkept.handle]
              simp only [List.length_append, List.length_take_of_le hle,
                Nat.add_assoc]
            · rw [hkept.files, ← List.append_assoc]
              funext p
              simp only [Disk.put, hfiles]
              split <;> rfl
            · rw [receivedBytes, if_pos hmore, List.length_append,
                List.length_append, List.length_take_of_le hle]
              omega
            · rw [receivedBytes, if_pos hmore]
              simp only [WritesSucceed, hwrite, hmore, true_imp_iff]
              cases x with
              | ok u =>
                  rw [hok rfl, List.take_length, List.append_cancel_left_eq,
                    hkept.kept_iff, hok rfl]
                  simp
              | error ec =>
                  by_cases hempty : bytes = []
                  · subst hempty
                    rw [Nat.le_zero.mp hle] at hkept ⊢
                    simpa using hkept.kept_iff
                  · have hless := herror ec rfl hempty
                    constructor
                    · intro heq
                      have hlength := congrArg List.length heq
                      rw [List.length_append, List.length_append,
                        List.length_take_of_le hle] at hlength
                      omega
                    · rintro ⟨hsuccess, -⟩
                      cases hsuccess hempty
            · rw [hkept.current, announcedBytes, if_pos hmore,
                Int64.add_assoc, Int64.ofNat_add]
          · rw [if_neg hmore] at hgot
            cases hgot
            have hzero : announced.toNat = 0 := by
              rw [UInt32.lt_iff_toNat_lt] at hmore
              exact Nat.eq_zero_of_not_pos hmore
            have hempty : bytes = [] :=
              List.eq_nil_of_length_eq_zero (by omega)
            subst hempty
            rw [Nat.le_zero.mp hle] at hfiles ⊢
            refine ⟨[], rfl, hfiles, Nat.zero_le _, ?_, ?_⟩
            · simp [receivedBytes, WritesSucceed, hmore]
            · rw [announcedBytes, if_neg hmore, hzero]

/-! ## The partial file -/

/-- The destructor can remove the file from the call on. -/
def Removable (env : DiskEnv) (call : Nat) : Prop :=
  match env.fault call with
  | none => True
  | some e =>
      (e.value = 87 ∨ e.value = 1 ∨ e.value = 50) ∧ env.fault (call + 1) = none

theorem dispositionFileHandle_files (env : DiskEnv) (path : WString)
    (disk : Disk) :
    (Removable env disk.calls →
      (dispositionFileHandle env path disk).files =
        (disk.put path none).files) ∧
      (¬ Removable env disk.calls →
        (dispositionFileHandle env path disk).files = disk.files) := by
  unfold dispositionFileHandle Removable
  cases env.fault disk.calls with
  | none => exact ⟨fun _ => rfl, fun h => absurd trivial h⟩
  | some e =>
      dsimp only
      split
      · rename_i hretry
        change (_ ∧ env.fault disk.call.calls = none → _) ∧
          (¬ (_ ∧ env.fault disk.call.calls = none) → _)
        cases env.fault disk.call.calls with
        | none => exact ⟨fun _ => rfl, fun h => absurd ⟨hretry, rfl⟩ h⟩
        | some e' => exact ⟨fun h => absurd h.2 (by simp), fun _ => rfl⟩
      · rename_i hretry
        exact ⟨fun h => absurd h.1 hretry, fun _ => rfl⟩

theorem truncatedFile_ok {env : DiskEnv} {n : Nat} (hn : n < 2 ^ 63)
    {part part' : FilePart} {disk disk' : Disk}
    (h : part.truncatedFile env (Int64.ofNat n) disk = (.ok part', disk')) :
    part' = { part with pos := n } ∧
      disk'.files = (disk.put part.path
        (some (resized (disk.content part.path) n))).files := by
  unfold truncatedFile at h
  split at h
  · cases h
  · rename_i part₁ disk₁ hseek
    obtain ⟨rfl, hfiles⟩ := seek_ok hseek
    have hcontent : disk₁.content part.path = disk.content part.path := by
      rw [Disk.content, hfiles]
      rfl
    split at h
    · cases h
    · cases h
      rw [Int64.toInt_ofNat_of_lt hn, Int.toNat_natCast]
      refine ⟨rfl, ?_⟩
      funext p
      simp only [Disk.put, hcontent, Disk.call_files, hfiles]

theorem truncated_ok {env : DiskEnv} {part part' : FilePart}
    {disk disk' : Disk} (h : part.truncated env disk = (.ok part', disk')) :
    part' = { part with pos := 0, totalBytes := 0, currentBytes := 0 } ∧
      disk'.files = (disk.put part.path (some [])).files := by
  unfold truncated at h
  split at h
  · cases h
  · rename_i htruncate
    cases h
    obtain ⟨rfl, hfiles⟩ := truncatedFile_ok (n := 0) (by decide) htruncate
    refine ⟨rfl, ?_⟩
    rw [hfiles]
    simp [resized]

/-- A part that was opened on a file is written at the end of `content`, which
is all that the file holds; no other file changes. -/
structure Opened (part : FilePart) (disk : Disk) (part' : FilePart)
    (disk' : Disk) (content : Bytes) : Prop where
  path_eq : part'.path = part.path
  valid_eq : part'.valid = part.valid
  discard_eq : part'.discardFileHandle = part.discardFileHandle
  pos_eq : part'.pos = content.length
  files_eq : disk'.files = (disk.put part.path (some content)).files

theorem Opened.of_files {part part₁ part' : FilePart} {disk disk₁ disk' : Disk}
    {content : Bytes} (h : Opened part₁ disk₁ part' disk' content)
    (hpath : part₁.path = part.path) (hvalid : part₁.valid = part.valid)
    (hdiscard : part₁.discardFileHandle = part.discardFileHandle)
    (hfiles : disk₁.files = disk.files) :
    Opened part disk part' disk' content where
  path_eq := h.path_eq.trans hpath
  valid_eq := h.valid_eq.trans hvalid
  discard_eq := h.discard_eq.trans hdiscard
  pos_eq := h.pos_eq
  files_eq := by
    rw [h.files_eq, hpath]
    simp only [Disk.put, hfiles]

theorem seek_files {env : DiskEnv} {pos : Int64} {part : FilePart}
    {disk disk' : Disk} {x : Except ErrorCode FilePart}
    (h : part.seek env pos disk = (x, disk')) : disk'.files = disk.files := by
  unfold seek at h
  split at h
  · cases h
    rfl
  · split at h <;> cases h <;> rfl

theorem size_ok {env : DiskEnv} {part : FilePart} {disk disk' : Disk}
    {n : Int64} (h : part.size env disk = (.ok n, disk')) :
    n = Int64.ofNat (disk.content part.path).length ∧
      disk'.files = disk.files := by
  unfold size at h
  split at h <;> cases h
  exact ⟨rfl, rfl⟩

theorem startOver_opened {env : DiskEnv} {part part' : FilePart}
    {disk disk' : Disk} {content : Bytes}
    (hfile : disk.files part.path = some content)
    (hpos : content = [] → part.pos = 0)
    (h : part.startOver env disk = (.ok part', disk')) :
    Opened part disk part' disk' [] := by
  unfold startOver at h
  rw [content_eq hfile] at h
  split at h
  · rename_i hempty
    have hnil := List.eq_nil_of_length_eq_zero hempty
    subst hnil
    cases h
    exact ⟨rfl, rfl, rfl, hpos rfl, (put_self hfile).symm⟩
  · obtain ⟨rfl, hfiles⟩ := truncatedFile_ok (n := 0) (by decide) h
    refine ⟨rfl, rfl, rfl, rfl, ?_⟩
    rw [hfiles, content_eq hfile]
    simp [resized]

theorem resume_opened {env : DiskEnv} {spec : HashSpec} {part part' : FilePart}
    {disk disk' : Disk} {content : Bytes}
    (hfile : disk.files part.path = some content)
    (hlong : overlaySize < content.length) (hlt : content.length < 2 ^ 63)
    (h : part.resume env spec disk = (.ok part', disk')) :
    ∃ content', Opened part disk part' disk' content' := by
  have hnonempty : content ≠ [] := by
    rw [← List.length_pos_iff]
    omega
  have hrestart : ∀ {part₁ : FilePart} {disk₁ : Disk},
      part₁ = { part with pos := part₁.pos } → disk₁.files = disk.files →
      part₁.startOver env disk₁ = (.ok part', disk') →
      ∃ content', Opened part disk part' disk' content' := by
    intro part₁ disk₁ hpart hfiles hstart
    rw [hpart] at hstart
    have hopened := startOver_opened (by rw [hfiles]; exact hfile)
      (fun hnil => absurd hnil hnonempty) hstart
    exact ⟨[], hopened.of_files rfl rfl rfl hfiles⟩
  unfold resume at h
  rw [content_eq hfile] at h
  dsimp only at h
  split at h
  · rename_i disk₁ hseek
    exact hrestart rfl (seek_files hseek) h
  · rename_i part₁ disk₁ hseek
    obtain ⟨rfl, hfiles⟩ := seek_ok hseek
    have hread : disk₁.call.files = disk.files := hfiles
    split at h
    · exact hrestart rfl hread h
    · split at h
      · exact hrestart rfl hread h
      · split at h
        · cases h
        · rename_i part₂ disk₂ htruncate
          cases h
          obtain ⟨rfl, hfiles₂⟩ := truncatedFile_ok (by omega) htruncate
          refine ⟨content.take (content.length - overlaySize), rfl, rfl, rfl,
            ?_, ?_⟩
          · exact (List.length_take_of_le (Nat.sub_le _ _)).symm
          · have hcontent : disk₁.call.content part.path = content :=
              content_eq (by rw [Disk.call_files, hfiles, hfile])
            rw [hfiles₂, hcontent, resized_of_le (Nat.sub_le _ _)]
            simp only [Disk.put, Disk.call_files, hfiles]

/-- `makeFilePart` from any state of the disk. -/
theorem makeFilePart_opened {env : DiskEnv} {p : WinPath} {hashValue : WString}
    {part : FilePart} {disk disk' : Disk}
    (hlt : (disk.content (partPath env p)).length < 2 ^ 63)
    (h : makeFilePart env p hashValue disk = (.ok part, disk')) :
    ∃ content, Opened
      { path := partPath env p, fsPath := WinPath.absolute env.dirs p } disk
      part disk' content := by
  generalize hcontent : disk.content (partPath env p) = content at hlt
  unfold makeFilePart at h
  dsimp only at h
  split at h
  · cases h
  rw [hcontent] at h
  let fresh : FilePart :=
    { path := partPath env p, fsPath := WinPath.absolute env.dirs p }
  let diskOpen := disk.call.put fresh.path (some content)
  have hopen : diskOpen.files fresh.path = some content :=
    Disk.put_files_self _ _ _
  have hopened : ∀ {disk₁ : Disk} {content' : Bytes},
      disk₁.files = diskOpen.files →
      Opened fresh disk₁ part disk' content' →
      Opened fresh disk part disk' content' := by
    intro disk₁ content' hfiles h
    obtain ⟨hpath, hvalid, hdiscard, hpos, hput⟩ := h
    refine ⟨hpath, hvalid, hdiscard, hpos, ?_⟩
    rw [hput]
    funext q
    by_cases hq : q = fresh.path <;> simp [Disk.put, hfiles, diskOpen, hq]
  split at h
  · cases h
  · rename_i fileSize disk₁ hsize
    obtain ⟨hvalue, hfiles⟩ := size_ok hsize
    have hfile₁ : disk₁.files fresh.path = some content := by
      rw [hfiles]
      exact hopen
    rw [content_eq hopen] at hvalue
    have hstart : fresh.startOver env disk₁ = (.ok part, disk') →
        ∃ content', Opened fresh disk part disk' content' := fun hstart =>
      ⟨[], hopened hfiles (startOver_opened hfile₁ (fun _ => rfl) hstart)⟩
    split at h
    · exact hstart h
    · rename_i hfresh
      split at h
      · exact hstart h
      · have hlong : overlaySize < content.length := by
          by_contra hshort
          refine hfresh (.inl ?_)
          rw [hvalue, Int64.le_iff_toInt_le, Int64.toInt_ofNat_of_lt hlt,
            Int64.toInt_ofNat_of_lt (by decide)]
          omega
        obtain ⟨content', hresume⟩ := resume_opened hfile₁ hlong hlt h
        exact ⟨content', hopened hfiles hresume⟩

/-! ## Before the receive loop -/

/-- The payload to which a response adds: that of the partial file if the
server goes on where it ends. -/
def resumedPayload (env : DiskEnv) (opts : DownloadOptions) (filename : WString)
    (r : MinimalResponse) (disk : Disk) : Bytes :=
  let destination := makeDestination opts filename
  if r.statusCode = 206 then
    (makeFilePart env destination opts.hashValue disk).2.content
      (partPath env destination)
  else []

/-- What holds before the receive loop. -/
structure Prepared (env : DiskEnv) (opts : DownloadOptions) (x : Exchange)
    (disk : Disk) (filename : WString) (r : MinimalResponse) (t : Transfer)
    (disk₀ : Disk) : Prop where
  filename_eq : x.filename = .ok filename
  headers_eq : x.headers = none
  body_eq : x.body = none
  response_eq : x.response = .ok r
  named : makeDestinationDecorous env
    (answeredDestination opts x r (makeDestination opts filename))
    opts.overwriteExists (makeFilePart env (makeDestination opts filename)
      opts.hashValue disk).2 = .ok t.destination
  success : r.isSuccessStatusCode = true
  destination_eq : t.part.fsPath = t.destination
  path_eq : t.part.path = partPath env (makeDestination opts filename)
  valid : t.part.valid = true
  discard : t.part.discardFileHandle = true
  appending : t.part.Appending disk₀ (resumedPayload env opts filename r disk)
  frame : ∀ p, p ≠ t.part.path → disk₀.files p = disk.files p
  support_eq : t.partSupport = (!opts.hashValue.isEmpty && r.partDownload &&
    decide (0 < r.contentLength.getD (-1)))
  total_eq : t.totalSize = r.contentLength.getD (-1) + t.part.currentBytes
  current_eq : r.statusCode = 206 → ∀ part disk₁,
    makeFilePart env (makeDestination opts filename) opts.hashValue disk =
      (.ok part, disk₁) → t.part.currentBytes = part.currentBytes

theorem accept_prepared {env : DiskEnv} {opts : DownloadOptions} {x : Exchange}
    {disk disk₁ disk₀ : Disk} {filename : WString} {r : MinimalResponse}
    {destination : WinPath} {part : FilePart} {t : Transfer}
    (hfilename : x.filename = .ok filename) (hheaders : x.headers = none)
    (hbody : x.body = none) (hresponse : x.response = .ok r)
    (hnamed : makeDestinationDecorous env
      (answeredDestination opts x r (makeDestination opts filename))
      opts.overwriteExists disk₁ = .ok destination)
    (hmake : makeFilePart env (makeDestination opts filename) opts.hashValue
      disk = (.ok part, disk₁))
    (hlt : (disk.content (partPath env
      (makeDestination opts filename))).length < 2 ^ 63)
    (h : accept env opts r destination part disk₁ = (.ok t, disk₀)) :
    Prepared env opts x disk filename r t disk₀ := by
  obtain ⟨content, hopened⟩ := makeFilePart_opened hlt hmake
  have hnamed' : makeDestinationDecorous env
      (answeredDestination opts x r (makeDestination opts filename))
      opts.overwriteExists (makeFilePart env (makeDestination opts filename)
        opts.hashValue disk).2 = .ok destination := by
    rw [hmake]
    exact hnamed
  have hpath : part.path = partPath env (makeDestination opts filename) :=
    hopened.path_eq
  have hfile : disk₁.files part.path = some content := by
    rw [hopened.files_eq, hopened.path_eq, Disk.put_files_self]
  have hframe : ∀ p, p ≠ part.path → disk₁.files p = disk.files p := by
    intro p hp
    rw [hpath] at hp
    rw [hopened.files_eq, Disk.put_files_ne hp]
  unfold accept at h
  dsimp only at h
  split at h
  · cases h
  rename_i hsuccess
  have hsuccess : r.isSuccessStatusCode = true := by
    simpa using hsuccess
  split at h
  · rename_i hstatus
    split at h
    · cases h
    · rename_i part₁ disk₂ htruncated
      cases h
      obtain ⟨rfl, hfiles⟩ := truncated_ok htruncated
      have hpayload : resumedPayload env opts filename r disk = [] := by
        rw [resumedPayload, if_neg hstatus]
      refine ⟨hfilename, hheaders, hbody, hresponse, hnamed', hsuccess, rfl,
        hpath, hopened.valid_eq, hopened.discard_eq, ?_, ?_, rfl,
        (Int64.add_zero _).symm, fun h => absurd h hstatus⟩
      · rw [hpayload]
        refine ⟨?_, rfl⟩
        rw [hfiles]
        exact Disk.put_files_self _ _ _
      · intro p hp
        rw [hfiles, Disk.put_files_ne hp, hframe p hp]
  · rename_i hstatus
    rw [Decidable.not_not] at hstatus
    cases h
    have hpayload : resumedPayload env opts filename r disk = content := by
      rw [resumedPayload, if_pos hstatus, hmake, ← hpath, content_eq hfile]
    refine ⟨hfilename, hheaders, hbody, hresponse, hnamed', hsuccess, rfl,
      hpath, hopened.valid_eq, hopened.discard_eq, ?_, hframe, rfl, rfl, ?_⟩
    · rw [hpayload]
      exact ⟨hfile, hopened.pos_eq⟩
    · intro _ part' disk' hmake'
      rw [hmake] at hmake'
      cases hmake'
      rfl

theorem prepare_prepared {env : DiskEnv} {opts : DownloadOptions} {x : Exchange}
    {disk disk₀ : Disk} {t : Transfer}
    (hlt : ∀ path, (disk.content path).length < 2 ^ 63)
    (h : prepare env opts x disk = (.ok t, disk₀)) :
    ∃ filename r, Prepared env opts x disk filename r t disk₀ := by
  unfold prepare at h
  split at h
  · cases h
  rename_i filename hfilename
  dsimp only at h
  split at h
  · cases h
  rename_i part disk₁ hmake
  unfold request at h
  split at h
  · cases h
  · cases h
  · cases h
  · rename_i r hheaders hbody hresponse
    split at h
    · cases h
    · rename_i destination hnamed
      exact ⟨filename, r, accept_prepared hfilename hheaders hbody hresponse
        hnamed hmake (hlt _) h⟩

/-! ## Delivery -/

/-- The file at the path that is returned holds the resumed payload and all
bytes that were read, and these are at least as many as the response
declared. -/
structure Delivered (env : DiskEnv) (opts : DownloadOptions) (x : Exchange)
    (disk : Disk) (path : WinPath) (disk' : Disk) : Prop where
  file : ∀ filename r, x.filename = .ok filename → x.response = .ok r →
    disk'.files (fileKey env path) =
      some (resumedPayload env opts filename r disk ++ receivedBytes x.rounds)
  length : ∀ r n, x.response = .ok r → r.contentLength = some n →
    n.toInt ≤ (receivedBytes x.rounds).length

/-- The writes and the rename succeed.  A rename that fails does no harm if the
destination holds the same bytes already, or is the partial file itself and
cannot be removed. -/
def Transfer.Lands (env : DiskEnv) (rounds : List Round) (t : Transfer)
    (disk : Disk) : Prop :=
  let call := (afterWrites env rounds t.part disk).2.calls
  match env.fault call with
  | none => WritesSucceed env rounds t.part disk
  | some _ =>
      if fileKey env t.destination = t.part.path then
        ¬ Removable env (call + 1) ∧ WritesSucceed env rounds t.part disk
      else disk.files (fileKey env t.destination) =
        some (disk.content t.part.path ++ receivedBytes rounds)

/-- The condition under which a download delivers what it received. -/
structure DeliversWhen (env : DiskEnv) (opts : DownloadOptions) (x : Exchange)
    (disk : Disk) : Prop where
  lands : ∀ t disk₀, prepare env opts x disk = (.ok t, disk₀) →
    t.Lands env x.rounds disk₀
  covered : ∀ r n, x.response = .ok r → r.contentLength = some n →
    n.toInt + missingBytes x.rounds ≤ announcedBytes x.rounds

theorem run_ok {env : DiskEnv} {hashValue : WString} {rounds : List Round}
    {t : Transfer} {disk disk' : Disk} {path : WinPath}
    (h : t.run env hashValue rounds disk = some (.ok path, disk')) :
    ∃ got, receive env rounds t.part.currentBytes t.part disk = some got ∧
      ¬ (t.totalSize ≠ 0 ∧ got.currentBytes < t.totalSize) ∧
      path = t.destination ∧
      disk' = (got.part.solidified env got.disk).2.1.fileDiscard env
        (got.part.solidified env got.disk).2.2 := by
  unfold Transfer.run at h
  split at h
  · cases h
  rename_i got hgot
  split at h
  · unfold Transfer.breakOff at h
    split at h <;> cases h
  · split at h
    · unfold Transfer.breakOff at h
      split at h <;> cases h
    · rename_i henough
      cases h
      exact ⟨got, hgot, henough, rfl, rfl⟩

/-- The file at the destination after the rename and the destructor. -/
theorem solidified_files (env : DiskEnv) {part : FilePart} {disk : Disk}
    {content : Bytes} (hvalid : part.valid = true)
    (hdiscard : part.discardFileHandle = true)
    (hfile : disk.files part.path = some content) :
    let solid := part.solidified env disk
    let key := fileKey env part.fsPath
    (solid.2.1.fileDiscard env solid.2.2).files key =
      match env.fault disk.calls with
      | none => some content
      | some _ =>
          if key = part.path then
            open Classical in
            if Removable env (disk.calls + 1) then none else some content
          else disk.files key := by
  classical
  have hremoved := dispositionFileHandle_files env part.path disk.call
  unfold solidified
  rw [hvalid]
  cases env.fault disk.calls with
  | none =>
      simp only [Bool.not_true, Bool.false_eq_true, if_false, fileDiscard,
        Bool.false_and, Disk.put_files_self, content_eq hfile]
  | some e =>
      simp only [Bool.not_true, Bool.false_eq_true, if_false, fileDiscard,
        hvalid, hdiscard, Bool.and_self, if_true]
      by_cases hremove : Removable env (disk.calls + 1)
      · rw [hremoved.1 hremove]
        split
        · rename_i hkey
          rw [hkey, Disk.put_files_self]
        · rename_i hkey
          rw [Disk.put_files_ne hkey]
          rfl
      · rw [hremoved.2 hremove]
        split
        · rename_i hkey
          rw [hkey]
          exact hfile
        · rfl

theorem lands_iff {env : DiskEnv} {rounds : List Round} {t : Transfer}
    {disk : Disk} {payload : Bytes} (hpart : t.part.fsPath = t.destination)
    (hvalid : t.part.valid = true) (hdiscard : t.part.discardFileHandle = true)
    (happending : t.part.Appending disk payload) {got : Received}
    (hgot : receive env rounds t.part.currentBytes t.part disk = some got) :
    let solid := got.part.solidified env got.disk
    (solid.2.1.fileDiscard env solid.2.2).files (fileKey env t.destination) =
        some (payload ++ receivedBytes rounds) ↔
      t.Lands env rounds disk := by
  classical
  obtain ⟨kept, hkept⟩ := receive_keeps happending hgot
  have hcalls : (afterWrites env rounds t.part disk).2.calls =
      got.disk.calls := by rw [← receive_state hgot]
  have hpath : got.part.path = t.part.path := by rw [hkept.handle]
  have hfsPath : got.part.fsPath = t.destination := by
    rw [hkept.handle]
    exact hpart
  have hfile : got.disk.files got.part.path = some (payload ++ kept) := by
    rw [hpath, hkept.files, Disk.put_files_self]
  have hfiles := solidified_files env
    (by rw [hkept.handle]; exact hvalid)
    (by rw [hkept.handle]; exact hdiscard) hfile
  rw [hfsPath, hpath] at hfiles
  dsimp only at hfiles ⊢
  rw [hfiles, Transfer.Lands, hcalls]
  have hwrites : some (payload ++ kept) =
      some (payload ++ receivedBytes rounds) ↔
        WritesSucceed env rounds t.part disk := by
    rw [Option.some_inj, List.append_cancel_left_eq, hkept.kept_iff]
  cases env.fault got.disk.calls with
  | none => exact hwrites
  | some e =>
      dsimp only
      by_cases hkey : fileKey env t.destination = t.part.path
      · rw [if_pos hkey, if_pos hkey]
        by_cases hremove : Removable env (got.disk.calls + 1)
        · rw [if_pos hremove]
          exact ⟨fun h => absurd h (by simp), fun h => absurd hremove h.1⟩
        · rw [if_neg hremove, hwrites]
          exact ⟨fun h => ⟨hremove, h⟩, fun h => h.2⟩
      · rw [if_neg hkey, if_neg hkey, hkept.files, Disk.put_files_ne hkey,
          content_eq happending.file]

theorem declared_le_announced {n current total : Int64} {announced : Nat}
    (htotal : total = n + current)
    (henough : ¬ (total ≠ 0 ∧ current + Int64.ofNat announced < total))
    (hcurrent : 0 ≤ current.toInt)
    (hlt : n.toInt + current.toInt < 2 ^ 63) : n.toInt ≤ announced := by
  by_contra hmore
  have hsum : total.toInt = n.toInt + current.toInt := by
    rw [htotal, toInt_add_of_lt (by omega) hcurrent hlt]
  have hcurrent' : current.toInt = current.toInt.toNat := by omega
  have hcounted : (current + Int64.ofNat announced).toInt =
      (current.toInt.toNat + announced : Nat) :=
    add_ofNat_toInt hcurrent' (by omega)
  refine henough ⟨?_, ?_⟩
  · rw [ne_eq, ← Int64.toInt_inj, hsum, Int64.toInt_zero]
    omega
  · rw [Int64.lt_iff_toInt_lt, hcounted, hsum]
    omega

/-- A path is returned for a download that was delivered exactly if the writes
and the rename succeed, and no more bytes are missing than were announced in
excess of the declared length.  At least that length is always announced. -/
theorem winGet_delivered_iff {env : DiskEnv} {opts : DownloadOptions}
    {x : Exchange} {disk disk' : Disk} {path : WinPath}
    (hlt : ∀ path, (disk.content path).length < 2 ^ 63)
    (h : winGet env opts x disk = some (.ok path, disk')) :
    (Delivered env opts x disk path disk' ↔ DeliversWhen env opts x disk) ∧
      ∃ t disk₀, prepare env opts x disk = (.ok t, disk₀) ∧
        ∀ r n, x.response = .ok r → r.contentLength = some n →
          0 ≤ t.part.currentBytes.toInt →
          n.toInt + t.part.currentBytes.toInt < 2 ^ 63 →
          n.toInt ≤ announcedBytes x.rounds := by
  unfold winGet at h
  split at h
  · cases h
  rename_i t disk₀ hprepare
  obtain ⟨filename, r, hprepared⟩ := prepare_prepared hlt hprepare
  obtain ⟨got, hgot, henough, rfl, rfl⟩ := run_ok h
  have hlands := lands_iff hprepared.destination_eq hprepared.valid
    hprepared.discard hprepared.appending hgot
  have hannounced := announcedBytes_eq x.rounds
  refine ⟨⟨?_, ?_⟩, t, disk₀, hprepare, ?_⟩
  · rintro ⟨hfile, hlength⟩
    refine ⟨?_, ?_⟩
    · intro t' disk₀' hprepare'
      rw [hprepare] at hprepare'
      cases hprepare'
      exact hlands.mp (hfile filename r hprepared.filename_eq
        hprepared.response_eq)
    · intro r' n hr hn
      have hle := hlength r' n hr hn
      omega
  · rintro ⟨hlanded, hcovered⟩
    refine ⟨?_, ?_⟩
    · intro filename' r' hfilename hr
      rw [hprepared.filename_eq] at hfilename
      rw [hprepared.response_eq] at hr
      cases hfilename
      cases hr
      exact hlands.mpr (hlanded t disk₀ hprepare)
    · intro r' n hr hn
      have hle := hcovered r' n hr hn
      omega
  · intro r' n hr hn hcurrent hsum
    rw [hprepared.response_eq] at hr
    cases hr
    obtain ⟨kept, hkept⟩ := receive_keeps hprepared.appending hgot
    have htotal := hprepared.total_eq
    rw [hn, Option.getD_some] at htotal
    rw [hkept.current] at henough
    exact declared_le_announced htotal henough hcurrent hsum

/-! ### A download of one byte -/

/-- The download of `a` into `C:\`. -/
def letterOptions : DownloadOptions where
  hashValue := wide "61"
  cwd := driveRoot
  destination := .ofText []

/-- The server sends one byte. -/
def letterExchange : Exchange where
  filename := .ok (wide "a")
  response := .ok
    { statusCode := 200, statusText := wide "OK", contentLength := some 1
      partDownload := true, dispositionName := none }
  rounds := [.received 1 [0x61] (by decide), .received 0 [] (by decide)]

def renameDenied : DiskEnv :=
  { reliableEnv with
    fault := fun call =>
      if call = 6 then some SystemError.accessDenied else none }

theorem emptyDisk_length_lt (path : WString) :
    (emptyDisk.content path).length < 2 ^ 63 := by
  change ([] : Bytes).length < 2 ^ 63
  decide

/-- A path is returned, and no file is there. -/
theorem renameDenied_not_delivered :
    ∃ path disk', winGet renameDenied letterOptions letterExchange emptyDisk =
        some (.ok path, disk') ∧
      ¬ Delivered renameDenied letterOptions letterExchange emptyDisk path
        disk' := by
  have hrun : ((winGet renameDenied letterOptions letterExchange
      emptyDisk).bind fun result => result.1.toOption.map fun path =>
        result.2.files (fileKey renameDenied path)) = some none := by
    decide
  rcases hresult : winGet renameDenied letterOptions letterExchange
    emptyDisk with _ | ⟨_ | path, disk'⟩
  · rw [hresult] at hrun
    cases hrun
  · rw [hresult] at hrun
    cases hrun
  · rw [hresult] at hrun
    refine ⟨path, disk', rfl, fun hdelivered => ?_⟩
    have hnone : disk'.files (fileKey renameDenied path) = none :=
      Option.some_inj.mp hrun
    have hfile := hdelivered.file _ _ rfl rfl
    rw [hnone] at hfile
    cases hfile

/-- Without faults the byte is delivered. -/
theorem letterExchange_delivered :
    ∃ path disk', winGet reliableEnv letterOptions letterExchange emptyDisk =
        some (.ok path, disk') ∧
      Delivered reliableEnv letterOptions letterExchange emptyDisk path
        disk' := by
  have hrun : ((winGet reliableEnv letterOptions letterExchange
      emptyDisk).bind fun result => result.1.toOption.map fun _ => ()) =
        some () := by
    decide
  rcases hresult : winGet reliableEnv letterOptions letterExchange
    emptyDisk with _ | ⟨_ | path, disk'⟩
  · rw [hresult] at hrun
    cases hrun
  · rw [hresult] at hrun
    cases hrun
  · refine ⟨path, disk', rfl,
      (winGet_delivered_iff emptyDisk_length_lt hresult).1.mpr ⟨?_, ?_⟩⟩
    · intro t disk₀ hprepare
      obtain ⟨filename, r, hprepared⟩ :=
        prepare_prepared emptyDisk_length_lt hprepare
      exact writesSucceed_of_reliable reliableEnv_reliable hprepared.appending
    · intro r n hr hn
      cases hr
      cases hn
      decide

end Baulk.Net
