import Baulk.Net.Delivery

/-!
# Downloads that fail

`MakeFilePart` strips the trailer of a partial file as soon as it opens it, and
the destructor removes the file unless a new trailer was saved.  `WinGet` saves
one only if the transfer itself breaks off, so that a download that fails
before it keeps nothing of what an earlier one had received.
-/

namespace Baulk.Net

open FilePart

/-! ## Keeping and losing a payload -/

/-- A later `makeFilePart` goes on behind `content` or further. -/
def KeepsPayload (env : DiskEnv) (p : WinPath) (hashValue : WString)
    (content : Bytes) (disk : Disk) : Prop :=
  ∃ content', content <+: content' ∧
    Resumes env p hashValue content' disk fun _ => True

theorem not_keepsPayload_of_removed {env : DiskEnv} (henv : env.Reliable)
    {p : WinPath} {hashValue : WString} {content : Bytes}
    (hcontent : content ≠ []) {disk : Disk}
    (hremoved : disk.files (partPath env p) = none) :
    ¬ KeepsPayload env p hashValue content disk := by
  rintro ⟨content', hprefix, hresumes⟩
  have hempty : disk.content (partPath env p) = [] := by
    rw [Disk.content, hremoved]
    rfl
  have hpayload := hresumes.payload_eq henv (by
    rw [hempty]
    decide)
  rw [hempty, (parked_nil hashValue).payload_eq] at hpayload
  subst hpayload
  exact hcontent (List.prefix_nil.mp hprefix)

theorem fileDiscard_reliable {env : DiskEnv} (henv : env.Reliable)
    {part : FilePart} (hvalid : part.valid = true)
    (hdiscard : part.discardFileHandle = true) (disk : Disk) :
    (part.fileDiscard env disk).files part.path = none := by
  simp only [fileDiscard, hvalid, hdiscard, Bool.and_self, if_true,
    dispositionFileHandle, henv _, Disk.put_files_self]

theorem saveOverlayData_refused {env : DiskEnv} (henv : env.Reliable)
    {hashValue : WString} {totalBytes currentBytes : Int64} {part : FilePart}
    {disk : Disk} {content : Bytes} (hfile : disk.files part.path = some content)
    (hrefused : totalBytes ≤ 0 ∨ Int64.ofNat content.length ≠ currentBytes) :
    ∃ ec disk', part.saveOverlayData env hashValue totalBytes currentBytes
      disk = (.error ec, part, disk') := by
  unfold saveOverlayData
  split
  · exact ⟨_, _, rfl⟩
  split
  · exact ⟨_, _, rfl⟩
  rename_i hguard
  cases hashConstruct hashValue with
  | error ec => exact ⟨_, _, rfl⟩
  | ok spec =>
      have hsize : Int64.ofNat content.length ≠ currentBytes :=
        hrefused.resolve_left fun hle => hguard (.inl hle)
      simp only [size, henv _, content_eq hfile, Except.toOption,
        Option.getD_some, ne_eq, hsize, not_false_eq_true, if_true]
      exact ⟨_, _, rfl⟩

/-- A transfer that breaks off keeps what was received if a trailer may be
saved, the total is positive and no announced byte is missing. -/
theorem breakOff_keeps_iff {env env' : DiskEnv} (henv : env.Reliable)
    (henv' : env'.Reliable) {p : WinPath} {hashValue : WString}
    (hhash : hashValue ≠ []) {spec : HashSpec}
    (hspec : hashConstruct hashValue = .ok spec) {t : Transfer}
    {got : Received} {content received : Bytes} (hcontent : content ≠ [])
    (hpath : got.part.path = partPath env' p) (hvalid : got.part.valid = true)
    (hdiscard : got.part.discardFileHandle = true)
    (hfile : got.disk.files got.part.path = some (content ++ received))
    {missing : Nat} (hcurrent : got.currentBytes.toInt =
      (content ++ received).length + missing)
    (hlt : (content ++ received).length + overlaySize < 2 ^ 63)
    (ec : ErrorCode) :
    KeepsPayload env' p hashValue content (t.breakOff env hashValue got ec).2 ↔
      t.partSupport = true ∧ 0 < t.totalSize ∧ missing = 0 := by
  have hsize : (Int64.ofNat (content ++ received).length).toInt =
      (content ++ received).length := Int64.toInt_ofNat_of_lt (by omega)
  have hlost : ∀ disk, ¬ KeepsPayload env' p hashValue content
      (got.part.fileDiscard env disk) := by
    intro disk
    refine not_keepsPayload_of_removed henv' hcontent ?_
    rw [← hpath]
    exact fileDiscard_reliable henv hvalid hdiscard disk
  unfold Transfer.breakOff
  by_cases hsupport : t.partSupport = true
  · rw [if_pos hsupport]
    dsimp only
    by_cases hfits : 0 < t.totalSize ∧ missing = 0
    · refine iff_of_true ?_ ⟨hsupport, hfits⟩
      obtain ⟨htotal, rfl⟩ := hfits
      have hpositive := List.length_pos_of_ne_nil hcontent
      have hcurrent : got.currentBytes.toInt =
          (content ++ received).length := hcurrent
      have hnonzero : got.currentBytes ≠ 0 := by
        rw [ne_eq, ← Int64.toInt_inj, hcurrent, List.length_append,
          Int64.toInt_zero]
        omega
      obtain ⟨part', disk', hsave⟩ := saveOverlayData_reliable henv hspec
        htotal hnonzero hdiscard hfile hcurrent
      obtain ⟨-, hkept, spec', hspec', hfiles⟩ :=
        saveOverlayData_ok hfile hcurrent hsave
      rw [hsave]
      simp only [fileDiscard, hkept, Bool.and_false, Bool.false_eq_true,
        if_false]
      have hparked := parked_encode (o := ⟨spec', t.totalSize, got.currentBytes,
        env.now⟩) hhash hspec' (List.append_ne_nil_of_left_ne_nil hcontent _)
        hcurrent hlt
      have hfile' : disk'.files (partPath env' p) = some
          (content ++ received ++ Overlay.encode
            ⟨spec', t.totalSize, got.currentBytes, env.now⟩) := by
        rw [hfiles, ← hpath, Disk.put_files_self]
      rw [← content_eq hfile'] at hparked
      exact ⟨_, List.prefix_append _ _, hparked.resumes henv' trivial⟩
    · refine iff_of_false ?_ (fun h => hfits h.2)
      have hrefused : t.totalSize ≤ 0 ∨
          Int64.ofNat (content ++ received).length ≠ got.currentBytes := by
        by_cases htotal : 0 < t.totalSize
        · right
          intro heq
          rw [← heq, hsize] at hcurrent
          exact hfits ⟨htotal, by omega⟩
        · exact .inl (Int64.not_lt.mp htotal)
      obtain ⟨ec', disk', hsave⟩ :=
        saveOverlayData_refused henv hfile hrefused
      rw [hsave]
      exact hlost disk'
  · rw [if_neg hsupport]
    exact iff_of_false (hlost _) (fun h => hsupport h.1)

/-! ## Failing before the transfer -/

/-- The response, if the request could be sent and was answered. -/
def Exchange.answer (x : Exchange) : Option MinimalResponse :=
  match x.headers, x.body, x.response with
  | none, none, .ok r => some r
  | _, _, _ => none

theorem FilePart.Parked.hashConstruct_ok {hashValue : WString} {content file : Bytes}
    (h : Parked hashValue content file) (hcontent : content ≠ []) :
    ∃ spec, hashConstruct hashValue = .ok spec := by
  have hpayload := h.payload_eq
  unfold payload resumable at hpayload
  split at hpayload
  · exact absurd hpayload.symm hcontent
  · split at hpayload
    · exact absurd hpayload.symm hcontent
    · rename_i spec hspec
      exact ⟨spec, hspec⟩

theorem FilePart.Parked.isSome_eq {path : WString} {hashValue : WString}
    {disk disk' : Disk} {content content' : Bytes}
    (h : Parked hashValue content (disk.content path)) (hcontent : content ≠ [])
    (hfiles : disk'.files = (disk.put path (some content')).files)
    (p : WString) : (disk'.files p).isSome = (disk.files p).isSome := by
  rw [hfiles]
  by_cases hp : p = path
  · subst hp
    rw [Disk.put_files_self]
    cases hfile : disk.files p with
    | some file => rfl
    | none =>
        have hpayload := h.payload_eq
        rw [Disk.content, hfile] at hpayload
        exact absurd hpayload.symm hcontent
  · rw [Disk.put_files_ne hp]

theorem fileExists_congr {disk disk' : Disk}
    (h : ∀ path, (disk'.files path).isSome = (disk.files path).isSome)
    (env : DiskEnv) (p : WinPath) :
    fileExists env p disk' = fileExists env p disk :=
  h _

theorem makeDestinationDecorous_congr {disk disk' : Disk}
    (h : ∀ path, (disk'.files path).isSome = (disk.files path).isSome)
    (env : DiskEnv) (p : WinPath) (forceOverwrite : Bool) :
    makeDestinationDecorous env p forceOverwrite disk' =
      makeDestinationDecorous env p forceOverwrite disk := by
  simp only [makeDestinationDecorous, fileExists_congr h]

/-- Up to the transfer every failure removes the partial file, and a range
request that is answered fails only for want of a name. -/
theorem request_failed {env : DiskEnv} {opts : DownloadOptions} {x : Exchange}
    {destination : WinPath} {part : FilePart} {disk disk' : Disk}
    {ec : ErrorCode}
    (h : request env opts x destination part disk = (.error ec, disk')) :
    (∃ (part' : FilePart) (disk₁ : Disk), part'.path = part.path ∧
      part'.valid = part.valid ∧
      part'.discardFileHandle = part.discardFileHandle ∧
      disk' = part'.fileDiscard env disk₁) ∧
    ∀ r, x.answer = some r → r.statusCode = 206 → ∀ name,
      makeDestinationDecorous env (answeredDestination opts x r destination)
        opts.overwriteExists disk ≠ .ok name := by
  unfold request at h
  unfold Exchange.answer
  split at h
  · cases h
    rename_i hheaders
    exact ⟨⟨part, disk, rfl, rfl, rfl, rfl⟩, by simp [hheaders]⟩
  · cases h
    rename_i hheaders hbody
    exact ⟨⟨part, disk, rfl, rfl, rfl, rfl⟩, by simp [hheaders, hbody]⟩
  · cases h
    rename_i hheaders hbody hresponse
    exact ⟨⟨part, disk, rfl, rfl, rfl, rfl⟩,
      by simp [hheaders, hbody, hresponse]⟩
  · rename_i r hheaders hbody hresponse
    simp only [hheaders, hbody, hresponse, Option.some_inj, forall_eq']
    split at h
    · cases h
      rename_i hnamed
      refine ⟨⟨part, disk, rfl, rfl, rfl, rfl⟩, fun _ name hname => ?_⟩
      rw [hnamed] at hname
      cases hname
    · rename_i name hnamed
      unfold accept at h
      dsimp only at h
      split at h
      · cases h
        rename_i hfailed
        refine ⟨⟨part.renameTo name, disk, rfl, rfl, rfl, rfl⟩,
          fun hstatus => ?_⟩
        rw [MinimalResponse.isSuccessStatusCode, hstatus] at hfailed
        exact absurd hfailed (by decide)
      · split at h
        · rename_i hstatus
          split at h
          · cases h
            exact ⟨⟨part.renameTo name, _, rfl, rfl, rfl, rfl⟩,
              fun h => absurd h hstatus⟩
          · cases h
        · cases h

/-- The inputs with which a download that fails keeps the payload: the transfer
has begun, in answer to a range request, and breaks off with its sizes
right. -/
structure KeepsWhen (env : DiskEnv) (opts : DownloadOptions) (x : Exchange)
    (filename : WString) (payload : Bytes) (disk : Disk) (r : MinimalResponse)
    (n : Int64) : Prop where
  answer_eq : x.answer = some r
  status_eq : r.statusCode = 206
  named : ∃ destination, makeDestinationDecorous env
    (answeredDestination opts x r (makeDestination opts filename))
    opts.overwriteExists disk = .ok destination
  support : r.partDownload = true
  length_eq : r.contentLength = some n
  length_pos : 0 < n
  total_lt : n.toInt + payload.length < 2 ^ 63
  complete : missingBytes x.rounds = 0

theorem zero_lt_add_iff {n current : Int64} {m : Nat} (hn : 0 < n)
    (hcurrent : current.toInt = m) :
    0 < n + current ↔ n.toInt + m < 2 ^ 63 := by
  have hpositive : 0 < n.toInt := by
    rwa [Int64.lt_iff_toInt_lt, Int64.toInt_zero] at hn
  have hlt := n.toInt_lt
  have hlt' := current.toInt_lt
  rw [Int64.lt_iff_toInt_lt, Int64.toInt_zero, Int64.toInt_add, hcurrent,
    Int.bmod_def]
  omega

/-! ## Failing in the transfer -/

theorem run_error {env : DiskEnv} {hashValue : WString} {rounds : List Round}
    {t : Transfer} {disk disk' : Disk} {ec : ErrorCode}
    (h : t.run env hashValue rounds disk = some (.error ec, disk')) :
    ∃ got ec', receive env rounds t.part.currentBytes t.part disk = some got ∧
      disk' = (t.breakOff env hashValue got ec').2 := by
  unfold Transfer.run at h
  split at h
  · cases h
  rename_i got hgot
  split at h
  · exact ⟨got, _, hgot, (congrArg Prod.snd (Option.some_inj.mp h)).symm⟩
  · split at h
    · exact ⟨got, _, hgot, (congrArg Prod.snd (Option.some_inj.mp h)).symm⟩
    · cases h

theorem transfer_failed_keeps_iff {env env' : DiskEnv} (henv : env.Reliable)
    (henv' : env'.Reliable) {opts : DownloadOptions}
    (hhash : opts.hashValue ≠ []) {spec : HashSpec}
    (hspec : hashConstruct opts.hashValue = .ok spec) {x : Exchange}
    {disk disk₀ disk' : Disk} {filename : WString} {r : MinimalResponse}
    {t : Transfer} (hprepared : Prepared env opts x disk filename r t disk₀)
    (hpath : partPath env' (makeDestination opts filename) =
      partPath env (makeDestination opts filename))
    {payload : Bytes} (hpayload : payload ≠ [])
    (hresumed : resumedPayload env opts filename r disk = payload)
    (hcurrent : t.part.currentBytes.toInt = payload.length)
    (hlt : payload.length + announcedBytes x.rounds + overlaySize < 2 ^ 63)
    {ec : ErrorCode}
    (hrun : t.run env opts.hashValue x.rounds disk₀ =
      some (.error ec, disk')) :
    KeepsPayload env' (makeDestination opts filename) opts.hashValue payload
        disk' ↔
      r.partDownload = true ∧ ∃ n, r.contentLength = some n ∧ 0 < n ∧
        n.toInt + payload.length < 2 ^ 63 ∧ missingBytes x.rounds = 0 := by
  have happending := hprepared.appending
  rw [hresumed] at happending
  obtain ⟨got, ec', hgot, rfl⟩ := run_error hrun
  obtain ⟨kept, hkept⟩ := receive_keeps happending hgot
  have hall : kept = receivedBytes x.rounds :=
    hkept.kept_iff.mpr (writesSucceed_of_reliable henv happending)
  subst hall
  have hannounced := announcedBytes_eq x.rounds
  have hcounted : got.currentBytes.toInt =
      (payload ++ receivedBytes x.rounds).length + missingBytes x.rounds := by
    rw [hkept.current, add_ofNat_toInt hcurrent (by omega),
      List.length_append]
    omega
  rw [breakOff_keeps_iff henv henv' hhash hspec hpayload
    (by rw [hkept.handle, hpath]; exact hprepared.path_eq)
    (by rw [hkept.handle]; exact hprepared.valid)
    (by rw [hkept.handle]; exact hprepared.discard)
    (by rw [hkept.files, hkept.handle]; exact Disk.put_files_self _ _ _)
    hcounted (by rw [List.length_append]; omega) ec',
    hprepared.support_eq, hprepared.total_eq]
  have hhash' : opts.hashValue.isEmpty = false := by
    rwa [List.isEmpty_eq_false_iff]
  cases hlength : r.contentLength with
  | none => simp
  | some n =>
      simp only [hhash', Bool.not_false, Bool.true_and, Option.getD_some,
        Bool.and_eq_true, decide_eq_true_eq, Option.some_inj,
        exists_eq_left', and_assoc]
      refine and_congr_right fun _ => and_congr_right fun hn => ?_
      rw [zero_lt_add_iff hn hcurrent]

/-- A download that fails keeps the payload of its partial file exactly if the
transfer had begun in answer to a range request and its sizes are right. -/
theorem winGet_failed_keeps_iff {env env' : DiskEnv} (henv : env.Reliable)
    (henv' : env'.Reliable) {opts : DownloadOptions}
    (hhash : opts.hashValue ≠ []) {x : Exchange} {filename : WString}
    (hopen : x.filename = .ok filename)
    (hpath : partPath env' (makeDestination opts filename) =
      partPath env (makeDestination opts filename))
    {disk disk' : Disk} (hsizes : ∀ path, (disk.content path).length < 2 ^ 63)
    {payload : Bytes} (hpayload : payload ≠ [])
    (hparked : Parked opts.hashValue payload
      (disk.content (partPath env (makeDestination opts filename))))
    (hlt : payload.length + announcedBytes x.rounds + overlaySize < 2 ^ 63)
    (hanswer : ∀ r, x.answer = some r → r.isSuccessStatusCode = true →
      r.statusCode = 206)
    {ec : ErrorCode} (h : winGet env opts x disk = some (.error ec, disk')) :
    KeepsPayload env' (makeDestination opts filename) opts.hashValue payload
        disk' ↔
      ∃ r n, KeepsWhen env opts x filename payload disk r n := by
  obtain ⟨spec, hspec⟩ := hparked.hashConstruct_ok hpayload
  obtain ⟨disk₁, hmake, hfiles₁⟩ := makeFilePart_reliable henv
    (makeDestination opts filename) opts.hashValue rfl hparked.length_lt
  rw [hparked.payload_eq] at hfiles₁
  have hprepare : prepare env opts x disk =
      request env opts x (makeDestination opts filename)
        (opened env (makeDestination opts filename) opts.hashValue
          (disk.content (partPath env (makeDestination opts filename))))
        disk₁ := by
    rw [prepare, hopen]
    dsimp only
    rw [hmake]
  have hnames : ∀ p forceOverwrite,
      makeDestinationDecorous env p forceOverwrite disk₁ =
        makeDestinationDecorous env p forceOverwrite disk :=
    makeDestinationDecorous_congr (hparked.isSome_eq hpayload hfiles₁) env
  unfold winGet at h
  split at h
  · rename_i ec₁ disk₀ hfailed
    cases h
    rw [hprepare] at hfailed
    obtain ⟨⟨part', disk₂, hpart, hvalid, hdiscard, rfl⟩, hunnamed⟩ :=
      request_failed hfailed
    rw [opened_path, ← hpath] at hpart
    refine iff_of_false (not_keepsPayload_of_removed henv' hpayload ?_) ?_
    · rw [← hpart]
      exact fileDiscard_reliable henv (by rw [hvalid, opened_valid])
        (by rw [hdiscard, opened_discardFileHandle]) disk₂
    · rintro ⟨r, n, hkeeps⟩
      obtain ⟨name, hname⟩ := hkeeps.named
      rw [← hnames] at hname
      exact hunnamed r hkeeps.answer_eq hkeeps.status_eq name hname
  · rename_i t disk₀ hready
    obtain ⟨filename', r, hprepared⟩ := prepare_prepared hsizes hready
    have hfilename := hprepared.filename_eq
    rw [hopen] at hfilename
    cases hfilename
    have hanswered : x.answer = some r := by
      rw [Exchange.answer, hprepared.headers_eq, hprepared.body_eq,
        hprepared.response_eq]
    have hstatus := hanswer r hanswered hprepared.success
    have hnamed := hprepared.named
    rw [hmake, hnames] at hnamed
    have hresumed : resumedPayload env opts filename r disk = payload := by
      rw [resumedPayload, if_pos hstatus, hmake]
      exact content_eq (by rw [hfiles₁, Disk.put_files_self])
    have hcurrent : t.part.currentBytes.toInt = payload.length := by
      rw [hprepared.current_eq hstatus _ _ hmake,
        hparked.opened_currentBytes]
    rw [transfer_failed_keeps_iff henv henv' hhash hspec hprepared hpath
      hpayload hresumed hcurrent hlt h]
    constructor
    · rintro ⟨hsupport, n, hlength, hpositive, htotal, hcomplete⟩
      exact ⟨r, n, hanswered, hstatus, ⟨_, hnamed⟩, hsupport, hlength,
        hpositive, htotal, hcomplete⟩
    · rintro ⟨r', n, hkeeps⟩
      have hr := hkeeps.answer_eq
      rw [hanswered] at hr
      cases hr
      exact ⟨hkeeps.support, n, hkeeps.length_eq, hkeeps.length_pos,
        hkeeps.total_lt, hkeeps.complete⟩

/-! ### The first of two bytes -/

/-- The trailer behind the first of two bytes. -/
def letterOverlay : Overlay where
  spec := .ofDigest .sha256 32 [0x61] (by decide)
  totalBytes := 2
  currentBytes := 1
  lasteTime := 0

/-- The partial file of the download of `a` holds its first byte. -/
def savedDisk : Disk :=
  emptyDisk.put (partPath reliableEnv (makeDestination letterOptions (wide "a")))
    (some ([0x61] ++ letterOverlay.encode))

theorem savedDisk_parked : Parked letterOptions.hashValue [0x61]
    (savedDisk.content
      (partPath reliableEnv (makeDestination letterOptions (wide "a")))) := by
  rw [savedDisk, content_eq (Disk.put_files_self _ _ _)]
  exact parked_encode (by decide) rfl (by decide) (by decide) (by decide)

theorem savedDisk_length_lt (path : WString) :
    (savedDisk.content path).length < 2 ^ 63 := by
  by_cases hpath : path =
      partPath reliableEnv (makeDestination letterOptions (wide "a"))
  · rw [hpath]
    exact savedDisk_parked.length_lt
  · rw [Disk.content, savedDisk, Disk.put_files_ne hpath]
    exact emptyDisk_length_lt path

/-- The request cannot be sent. -/
def unsentExchange : Exchange where
  filename := .ok (wide "a")
  body := some (ErrorCode.make 12007 [])
  response := .error (ErrorCode.make 12007 [])
  rounds := []

/-- The server goes on behind the first byte. -/
def secondByteResponse : MinimalResponse where
  statusCode := 206
  statusText := wide "Partial Content"
  contentLength := some 1
  partDownload := true
  dispositionName := none

/-- The connection breaks off at once. -/
def brokenExchange : Exchange where
  filename := .ok (wide "a")
  response := .ok secondByteResponse
  rounds := [.unavailable ⟨12030, by decide, by decide⟩]

/-- A request that cannot be sent loses the first byte. -/
theorem unsentExchange_loses :
    Parked letterOptions.hashValue [0x61] (savedDisk.content
        (partPath reliableEnv (makeDestination letterOptions (wide "a")))) ∧
      ∃ ec disk', winGet reliableEnv letterOptions unsentExchange savedDisk =
          some (.error ec, disk') ∧
        ¬ KeepsPayload reliableEnv (makeDestination letterOptions (wide "a"))
          letterOptions.hashValue [0x61] disk' := by
  refine ⟨savedDisk_parked, ?_⟩
  have hrun : (winGet reliableEnv letterOptions unsentExchange savedDisk).map
      (fun result => (result.1.toOption.isNone, result.2.files
        (partPath reliableEnv (makeDestination letterOptions (wide "a"))))) =
        some (true, none) := by
    decide
  rcases hresult : winGet reliableEnv letterOptions unsentExchange savedDisk
    with _ | ⟨ec | path, disk'⟩
  · rw [hresult] at hrun
    cases hrun
  · rw [hresult] at hrun
    have hnone := congrArg Prod.snd (Option.some_inj.mp hrun)
    exact ⟨ec, disk', rfl,
      not_keepsPayload_of_removed reliableEnv_reliable (by decide) hnone⟩
  · rw [hresult] at hrun
    cases hrun

/-- A transfer that breaks off keeps it. -/
theorem brokenExchange_keeps :
    ∃ ec disk', winGet reliableEnv letterOptions brokenExchange savedDisk =
        some (.error ec, disk') ∧
      KeepsPayload reliableEnv (makeDestination letterOptions (wide "a"))
        letterOptions.hashValue [0x61] disk' := by
  have hrun : (winGet reliableEnv letterOptions brokenExchange savedDisk).map
      (fun result => result.1.toOption.isNone) = some true := by
    decide
  rcases hresult : winGet reliableEnv letterOptions brokenExchange savedDisk
    with _ | ⟨ec | path, disk'⟩
  · rw [hresult] at hrun
    cases hrun
  · refine ⟨ec, disk', rfl, (winGet_failed_keeps_iff reliableEnv_reliable
      reliableEnv_reliable (by decide) rfl rfl savedDisk_length_lt (by decide)
      savedDisk_parked (by decide) ?_ hresult).mpr
        ⟨secondByteResponse, 1, ?_⟩⟩
    · intro r hr _
      cases hr
      rfl
    · refine ⟨rfl, rfl, ⟨makeDestination letterOptions (wide "a"), ?_⟩, rfl,
        rfl, by decide, by decide, rfl⟩
      have habsent : fileExists reliableEnv
          (makeDestination letterOptions (wide "a")) savedDisk = false := by
        decide
      have hnamed : makeDestinationDecorous reliableEnv
          (makeDestination letterOptions (wide "a"))
          letterOptions.overwriteExists savedDisk =
            .ok (makeDestination letterOptions (wide "a")) := by
        rw [makeDestinationDecorous, habsent]
        rfl
      exact hnamed
  · rw [hresult] at hrun
    cases hrun

end Baulk.Net
