import Baulk.Zip.DecompressCrc
import Baulk.Zip.Extractor

/-!
# Canceling the extraction of a zip archive

A progress callback cancels by returning false.  The writer passes this on to
the decompression, which should end with `ErrCanceled`, because the loop over
the entries looks at nothing else.  All methods do so except storing.
-/

namespace Baulk.Zip

open Archive
open Session (chunks)

/-! ## One entry -/

/-- The writer has accepted every chunk. -/
def Accepted (env : Env) (s : Session) : Prop :=
  ∀ front, front <+: chunks s.trace → front ≠ [] → env.writer front = true

theorem Accepted.of_chunks {env : Env} {s s' : Session} (h : Accepted env s)
    (hchunks : chunks s'.trace = chunks s.trace) : Accepted env s' := by
  intro front hfront
  rw [hchunks] at hfront
  exact h front hfront

/-- The methods go on only as long as the writer accepts. -/
def cancelAccounting (env : Env) : Accounting env where
  Holds _ s := Accepted env s
  Ends o := Accepted env o.session ∨ o = .canceled o.session
  of_chunks h hchunks := h.of_chunks hchunks
  deliver {sum s chunk} h haccepted := by
    intro front hfront hne
    have hchunks : chunks (deliver env sum chunk s).2.2.trace =
        chunks s.trace ++ [chunk] := Session.chunks_log_write s chunk
    rw [hchunks, List.prefix_concat_iff] at hfront
    rcases hfront with rfl | hfront
    · rw [← hchunks]
      exact haccepted
    · exact h front hfront hne
  fail _ h := .inl h
  canceled _ := .inr rfl
  finish {sum s} h := by
    left
    unfold Outcome.finish
    split <;> exact h

/-- A refused chunk of an entry that is not stored ends its decompression with
`ErrCanceled`. -/
theorem decompress_canceled {env : Env} {codecs : Codecs}
    {baseOffset : UInt64} {file : File} {fuel : Nat} {o : Outcome}
    (hmethod : file.method ≠ zipStore)
    (h : decompress env codecs baseOffset file fuel = some o)
    {front : List Bytes} (hfront : front <+: chunks o.session.trace)
    (hne : front ≠ []) (hrefused : env.writer front = false) :
    o = .canceled o.session := by
  have hends : Accepted env o.session ∨ o = .canceled o.session := by
    unfold decompress at h
    split at h
    · cases h
      left
      intro front hfront hne
      exact absurd (List.prefix_nil.mp hfront) hne
    · rename_i s hopen
      refine (cancelAccounting env).decompressData_ends codecs hmethod ?_ h
      intro front hfront hne
      rw [(pos_of_openEntry hopen).2.2] at hfront
      exact absurd (List.prefix_nil.mp hfront) hne
  refine hends.resolve_left fun haccepted => ?_
  rw [haccepted front hfront hne] at hrefused
  contradiction

/-! ## The loop over the entries -/

namespace Extractor

variable {x : Extractor} {fuel : Nat}

/-- The callback has refused a chunk after `log`, when the log was
`before`. -/
structure RefusedAt (host : Host) (log before : Log) (n : Nat) (after : Log)
    (r : Extracted) : Prop where
  log_eq : r.log = before ++ .report n :: after
  later : log <+: before
  refuses : host.Refuses (before ++ [.report n])

theorem extractData_canceled {index : Nat} {file : File} {ec : ErrorCode}
    {log before after : Log} {n : Nat} {r : Extracted}
    (h : x.extractData fuel index file ec log = some r)
    (hmethod : file.method ≠ zipStore)
    (hrefused : RefusedAt x.host log before n after r) :
    r.ok = false ∧ r.ec.code = ErrorCode.errCanceled := by
  unfold extractData at h
  split at h <;> cases h
  rename_i o hrun
  obtain ⟨front, hfront, hne, hcanceled⟩ :=
    x.host.exists_canceled_of_refuses hrefused.log_eq hrefused.later
      hrefused.refuses
  have ho := decompress_canceled hmethod hrun hfront hne
    (by simp only [writer, hcanceled])
  rw [ho]
  exact ⟨rfl, rfl⟩

theorem extractData_continues {index : Nat} {file : File} {ec : ErrorCode}
    {log : Log} {r : Extracted}
    (h : x.extractData fuel index file ec log = some r) :
    log.Continues r.log := by
  unfold extractData at h
  split at h <;> cases h
  exact x.host.consumeAll_continues log _

/-- An entry without data adds at most one call, which is not a report. -/
def Quiet (log : Log) (r : Extracted) : Prop :=
  ∃ added, r.log = log ++ added ∧
    ∀ action ∈ added, (∀ i, action ≠ .entry i) ∧ ∀ n, action ≠ .report n

theorem quiet_perform (host : Host) {action : Action} (ec : ErrorCode)
    (log : Log) (hentry : ∀ i, action ≠ .entry i)
    (hreport : ∀ n, action ≠ .report n) :
    Quiet log (host.perform action ec log) := by
  refine ⟨[action], host.perform_log action ec log, ?_⟩
  intro a ha
  rw [List.mem_singleton.mp ha]
  exact ⟨hentry, hreport⟩

theorem quiet_symlink (host : Host)
    (create : SymlinkSystem → (WinPath → WString → Bool × ErrorCode) →
      WinPath → WinPath → Bytes → SymlinkOutcome)
    (link : WinPath) (linkname : Bytes) (ec : ErrorCode) (log : Log) :
    Quiet log (host.symlink create link linkname ec log) := by
  refine ⟨_, rfl, ?_⟩
  intro action haction
  obtain ⟨call, -, rfl⟩ := List.mem_map.mp haction
  exact ⟨by simp, by simp⟩

theorem Quiet.continues {log : Log} {r : Extracted} (h : Quiet log r) :
    log.Continues r.log := by
  obtain ⟨added, hlog, hadded⟩ := h
  exact ⟨added, hlog, fun i hi => (hadded _ hi).1 i rfl⟩

/-- A report after the calls of an entry without data is after all of them. -/
theorem Quiet.later {log before after : Log} {n : Nat} {r : Extracted}
    (h : Quiet log r) (hlater : log <+: before)
    (hlog : r.log <+: before ++ .report n :: after) : r.log <+: before := by
  refine (Log.before_or_after hlog).resolve_right fun hreport => ?_
  obtain ⟨added, heq, hadded⟩ := h
  obtain ⟨between, rfl⟩ := hlater
  obtain ⟨rest, hrest⟩ := hreport
  rw [heq, List.append_assoc, List.append_assoc,
    List.append_cancel_left_eq] at hrest
  exact (hadded (.report n) (by rw [← hrest]; simp)).2 n rfl

theorem Quiet.not_refusedAt {host : Host} {log before after : Log} {n : Nat}
    {r : Extracted} (h : Quiet log r) : ¬RefusedAt host log before n after r := by
  rintro ⟨hlog, hlater, -⟩
  have hbegins := h.later hlater (by rw [hlog])
  have hlength := hbegins.length_le
  rw [hlog, List.length_append, List.length_cons] at hlength
  omega

/-- The calls of an entry follow on `log`, and unless it is stored a refused
chunk of it gives `ErrCanceled`. -/
structure Heeds (host : Host) (file : File) (log : Log) (r : Extracted) :
    Prop where
  continues : log.Continues r.log
  canceled : file.method ≠ zipStore → ∀ before n after,
    RefusedAt host log before n after r →
    r.ok = false ∧ r.ec.code = ErrorCode.errCanceled

theorem Quiet.heeds {log : Log} {r : Extracted} (h : Quiet log r)
    (host : Host) (file : File) : Heeds host file log r :=
  ⟨h.continues, fun _ _ _ _ hrefused => absurd hrefused h.not_refusedAt⟩

theorem extractEntry_heeds {index : Nat} {file : File} {ec : ErrorCode}
    {log : Log} {r : Extracted}
    (h : x.extractEntry fuel index file ec log = some r) :
    Heeds x.host file (log ++ [.entry index]) r := by
  have hnothing : ∀ ec, Quiet (log ++ [.entry index])
      ⟨false, ec, log ++ [.entry index]⟩ := fun ec =>
    ⟨[], (List.append_nil _).symm, by simp⟩
  unfold extractEntry at h
  dsimp only at h
  split at h
  · cases h
    exact (hnothing _).heeds _ _
  split at h
  · cases h
    exact (hnothing _).heeds _ _
  split at h
  · cases h
    exact (quiet_perform _ _ _ (by simp) (by simp)).heeds _ _
  split at h
  · split at h
    · contradiction
    · cases h
      exact (quiet_symlink _ _ _ _ _ _).heeds _ _
  rename_i out _ _ _ _ _
  have hcreated := quiet_perform x.host ec (log ++ [.entry index])
    (by simp : ∀ i, Action.newFile out file.time
      x.host.options.overwriteMode ≠ .entry i) (by simp)
  split at h
  · cases h
    exact hcreated.heeds _ _
  · refine ⟨hcreated.continues.trans (extractData_continues h), ?_⟩
    rintro hmethod before n after ⟨hlog, hlater, hrefuses⟩
    obtain ⟨added, heq, -⟩ := extractData_continues h
    have hcalls := List.prefix_append
      (x.host.perform (.newFile out file.time x.host.options.overwriteMode) ec
        (log ++ [.entry index])).log added
    rw [← heq, hlog] at hcalls
    exact extractData_canceled h hmethod
      ⟨hlog, hcreated.later hlater hcalls, hrefuses⟩

theorem report_of_entry {log before after : Log} {index n : Nat}
    {r : Extracted} (hcontinues : (log ++ [.entry index] : Log).Continues r.log)
    (hlater : log <+: before) (hlog : r.log = before ++ .report n :: after) :
    log ++ [.entry index] <+: before ∧ before.current = some index ∧
      ∀ j, Action.entry j ∉ after := by
  obtain ⟨added, heq, hadded⟩ := hcontinues
  have hbegins : log ++ [.entry index] <+: before := by
    have hwhole : log ++ [.entry index] <+: before ++ .report n :: after := by
      rw [← hlog, heq]
      exact List.prefix_append _ _
    refine (Log.before_or_after hwhole).resolve_right fun hreport => ?_
    rcases List.prefix_concat_iff.mp hreport with hsame | hshort
    · have hlast := congrArg List.getLast? hsame
      simp at hlast
    · have hlength := hlater.length_le
      have hlength' := hshort.length_le
      rw [List.length_append, List.length_singleton] at hlength'
      omega
  obtain ⟨between, rfl⟩ := hbegins
  rw [heq, List.append_assoc (log ++ [Action.entry index]) between,
    List.append_cancel_left_eq] at hlog
  refine ⟨List.prefix_append _ _, ?_, ?_⟩
  · rw [List.append_assoc, List.singleton_append]
    exact Log.current_append fun j hj => hadded j (by rw [hlog]; simp [hj])
  · intro j hj
    exact hadded j (by rw [hlog]; simp [hj])

theorem prefix_of_extractFiles (files : List File) :
    ∀ {index : Nat} {ec : ErrorCode} {log : Log} {r : Extracted},
      x.extractFiles fuel index files ec log = some r → log <+: r.log := by
  induction files with
  | nil =>
      intro index ec log r h
      cases h
      exact List.prefix_refl _
  | cons file files ih =>
      intro index ec log r h
      unfold extractFiles at h
      split at h
      · contradiction
      rename_i r₁ hentry
      have hfirst : log <+: r₁.log := by
        obtain ⟨added, heq, -⟩ := (extractEntry_heeds hentry).continues
        rw [heq, List.append_assoc]
        exact List.prefix_append _ _
      split at h
      · exact hfirst.trans (ih h)
      split at h
      · cases h
        exact hfirst
      · exact hfirst.trans (ih h)

/-- In the loop over the entries, a refused chunk of an entry that is not
stored is the end. -/
theorem extractFiles_canceled {before after : Log} {n i : Nat} {file : File}
    {r : Extracted} (hcurrent : before.current = some i)
    (hfile : x.files[i]? = some file) (hmethod : file.method ≠ zipStore)
    (files : List File) :
    ∀ (front : List File) (ec : ErrorCode) (log : Log),
      x.files = front ++ files →
      x.extractFiles fuel front.length files ec log = some r →
      RefusedAt x.host log before n after r →
      r.ok = false ∧ r.ec.code = ErrorCode.errCanceled ∧
        ∀ j, Action.entry j ∉ after := by
  induction files with
  | nil =>
      intro front ec log _ h hrefused
      cases h
      have hlength := hrefused.later.length_le
      have hlog : log = before ++ .report n :: after := hrefused.log_eq
      rw [hlog, List.length_append, List.length_cons] at hlength
      omega
  | cons next files ih =>
      intro front ec log hsplit h hrefused
      unfold extractFiles at h
      split at h
      · contradiction
      rename_i r₁ hentry
      have hheeds := extractEntry_heeds hentry
      -- A refused report of this entry, wherever the log goes on.
      have hhere : ∀ after₁, r₁.log = before ++ .report n :: after₁ →
          r₁.ok = false ∧ r₁.ec.code = ErrorCode.errCanceled ∧
            ∀ j, Action.entry j ∉ after₁ := by
        intro after₁ hlog₁
        obtain ⟨hbegins, hindex, hafter⟩ :=
          report_of_entry hheeds.continues hrefused.later hlog₁
        have hi : i = front.length := by
          rw [hcurrent] at hindex
          exact Option.some.inj hindex
        have hnext : file = next := by
          rw [hsplit, hi, List.getElem?_append_right le_rfl, Nat.sub_self,
            List.getElem?_cons_zero] at hfile
          exact (Option.some.inj hfile).symm
        subst hnext
        obtain ⟨hok, hcode⟩ := hheeds.canceled hmethod before n after₁
          ⟨hlog₁, hbegins, hrefused.refuses⟩
        exact ⟨hok, hcode, hafter⟩
      have hlater : x.extractFiles fuel (front.length + 1) files r₁.ec r₁.log =
          some r → ¬(r₁.ok = false ∧ r₁.ec.code = ErrorCode.errCanceled) →
          r.ok = false ∧ r.ec.code = ErrorCode.errCanceled ∧
            ∀ j, Action.entry j ∉ after := by
        intro hrest hgoes
        have hbegins := prefix_of_extractFiles files hrest
        rw [hrefused.log_eq] at hbegins
        rcases Log.before_or_after hbegins with hbefore | ⟨tail, htail⟩
        · refine ih (front ++ [next]) r₁.ec r₁.log (by simp [hsplit]) ?_
            ⟨hrefused.log_eq, hbefore, hrefused.refuses⟩
          rw [List.length_append, List.length_singleton]
          exact hrest
        · obtain ⟨hok, hcode, -⟩ := hhere tail (by rw [← htail]; simp)
          exact absurd ⟨hok, hcode⟩ hgoes
      split at h
      · rename_i hok
        exact hlater h fun hstop => by simp [hstop.1] at hok
      split at h
      · cases h
        exact hhere after hrefused.log_eq
      · rename_i hcontinue
        exact hlater h fun hstop => hcontinue (.inl hstop.2)

/-- When the progress callback refuses a chunk of an entry that is not stored,
`Extract` returns false with `ErrCanceled` and comes to no other entry. -/
theorem extract_canceled {ec : ErrorCode} {before after : Log} {n i : Nat}
    {file : File} {r : Extracted} (h : x.extract fuel ec = some r)
    (hlog : r.log = before ++ .report n :: after)
    (hrefuses : x.host.Refuses (before ++ [.report n]))
    (hcurrent : before.current = some i) (hfile : x.files[i]? = some file)
    (hmethod : file.method ≠ zipStore) :
    r.ok = false ∧ r.ec.code = ErrorCode.errCanceled ∧
      ∀ j, Action.entry j ∉ after := by
  have hcreated := quiet_perform x.host ec []
    (by simp : ∀ i, Action.createDirectories x.host.destination ≠ .entry i)
    (by simp)
  unfold extract at h
  dsimp only at h
  split at h
  · cases h
    exact absurd (⟨hlog, List.nil_prefix, hrefuses⟩ :
      RefusedAt x.host _ _ _ _ _) hcreated.not_refusedAt
  · have hbegins := prefix_of_extractFiles x.files h
    rw [hlog] at hbegins
    exact extractFiles_canceled hcurrent hfile hmethod x.files [] _ _ rfl h
      ⟨hlog, hcreated.later List.nil_prefix hbegins, hrefuses⟩

end Extractor

end Baulk.Zip
