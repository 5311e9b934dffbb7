import Baulk.Tar.Cancellation
import Baulk.Tar.Endings
import Baulk.Tar.Members

/-!
# Extracting a compressed file that is no archive

`UniversalExtractor` takes every compressed file for a tar archive first.  If
there is no header at the beginning, the extractor of archives asks for another
way, and the file is decoded a second time and copied into a single file.  The
second phase does not look at the error with which its last read has ended.
-/

namespace Baulk.Tar

open Archive
open Support (Step loop loop_spec loop_returns loop_done)

/-- `UniversalExtractor`, for a file of which the readers can be made. -/
structure UniversalExtractor where
  rt : Runtime
  host : Host
  /-- `destination / filename`. -/
  target : WinPath
  now : Time

/-- The result of `UniversalExtractor::Extract`, and what the second phase has
left in the target.  Of a chunk whose write fails nothing is counted; it was
not written as a whole. -/
structure Unpacked where
  ok : Bool
  ec : ErrorCode
  target : Option Bytes

/-- The variables of the loop that copies. -/
structure CopyLoop (R : ExtractReader) where
  source : R.State
  ec : ErrorCode
  log : Log
  content : Bytes

/-- `sizeof(buffer)`. -/
def copySize : Nat := 8192

namespace UniversalExtractor

variable (x : UniversalExtractor) (R : ExtractReader) (fuel : Nat)

/-- The extractor of the first phase.  Its filter only shows the names, and
there is no progress callback. -/
def tarExtractor : Extractor where
  rt := x.rt
  filter _ _ := true
  host := { x.host with progress := fun _ => true }

/-- One round of `for (;;)`.  A failure ends it like the end of the stream. -/
def copyBody (l : CopyLoop R) : Option (Step (CopyLoop R) Unpacked) :=
  match R.read copySize l.source with
  | none => none
  | some (.error e, _) => some (.done ⟨true, e.getD l.ec, some l.content⟩)
  | some (.ok got, s) =>
      if got.isEmpty then some (.done ⟨true, l.ec, some l.content⟩)
      else
        let written := x.host.perform (.write got) l.ec l.log
        if written.ok then
          some (.next ⟨s, written.ec, written.log, l.content ++ got⟩)
        else some (.done ⟨false, written.ec, some l.content⟩)

/-- `single_file_extract`, with a new reader in the state `s`. -/
def singleFileExtract (s : R.State) (ec : ErrorCode) (log : Log) :
    Option Unpacked :=
  let created := x.host.perform
    (.newFile x.target x.now x.host.options.overwriteMode) ec log
  if !created.ok then some ⟨false, created.ec, none⟩
  else loop (x.copyBody R) fuel ⟨s, created.ec, created.log, []⟩

/-- `Extract`.  Either phase makes a reader of its own. -/
def extract (first second : R.State) (ec : ErrorCode) : Option Unpacked :=
  match x.tarExtractor.extract R fuel first ec with
  | none => none
  | some tried =>
      if tried.ok then some ⟨true, tried.ec, none⟩
      else if tried.ec.code ≠ ErrorCode.errAnotherWay then
        some ⟨false, tried.ec, none⟩
      else x.singleFileExtract R fuel second tried.ec tried.log

end UniversalExtractor

/-! ## What is expected -/

/-- Some bytes begin with a header, as every archive with an entry does. -/
def BeginsWithHeader (D : Bytes) : Prop :=
  blockSize ≤ D.length ∧ isZeroBlock (segment D 0 blockSize) = false ∧
    ∃ h, parseHeader (segment D 0 blockSize) = .ok h

/-- What is expected of the extraction of a file that decodes to `D`: it is a
success exactly if the target was written and holds `D`, and it is none if the
file could not be decoded to its end. -/
def Unpacked.Faithful (D : Bytes) (fate : Fate) (r : Unpacked) : Prop :=
  (r.ok = true ↔ r.target = some D) ∧ (fate ≠ .complete → r.ok = false)

/-- The error codes after which the second phase follows. -/
def AsksAnotherWay (e : ErrorCode) : Prop :=
  e.code = ErrorCode.errNotTarFile ∨ e.code = ErrorCode.errAnotherWay

/-- Bytes that begin with no header are refused: a whole block that is not zero
comes first, or behind one block of zeros. -/
def Refused (D : Bytes) : Prop :=
  blockSize ≤ D.length ∧ (isZeroBlock (segment D 0 blockSize) = true →
    2 * blockSize ≤ D.length ∧
      isZeroBlock (segment D blockSize blockSize) = false)

/-- Two blocks of zeros, the archive without entries. -/
def IsEmptyArchive (D : Bytes) : Prop :=
  2 * blockSize ≤ D.length ∧ isZeroBlock (segment D 0 blockSize) = true ∧
    isZeroBlock (segment D blockSize blockSize) = true

/-- Less than the blocks that the first header needs. -/
def TooShort (H : Bytes) : Prop :=
  H.length < blockSize ∨
    isZeroBlock (segment H 0 blockSize) = true ∧ H.length < 2 * blockSize

/-- A decompressor fails with an error of its own in corrupt data, and that for
xz in any case, unless a regular end comes without output. -/
def Compression.IsLoud (k : Compression) (fate : Fate) (H : Bytes) : Prop :=
  fate = .corrupt ∨ k = .xz ∧ (fate = .complete → H ≠ [])

/-- What becomes of a file of which `H` is handed over can be told: all of it is
copied, or the first header is missing and the failure is loud. -/
def Told (k : Compression) (fate : Fate) (H : Bytes) : Prop :=
  Refused H ∧ fate = .complete ∨ TooShort H ∧ k.IsLoud fate H

/-- A failure of the first phase that is not taken for the end of an archive.
If the second phase follows, the decoding is complete. -/
def Discernible (failure : Failure) (fate : Fate) : Prop :=
  ∃ e, failure = some e ∧ e.isError = true ∧
    e.code ≠ ErrorCode.errEnded ∧ (AsksAnotherWay e → fate = .complete)

/-! ## Calls -/

theorem perform_cases (host : Host) (action : Action) (ec : ErrorCode)
    (log : Log) :
    host.perform action ec log = ⟨true, ec, log ++ [action]⟩ ∨
      ∃ e, host.disk (log ++ [action]) = some e ∧
        host.perform action ec log =
          ⟨false, e.toErrorCode, log ++ [action]⟩ := by
  unfold Host.perform
  cases hdisk : host.disk (log ++ [action]) with
  | none =>
      left
      dsimp only
      rw [hdisk]
  | some e =>
      right
      refine ⟨e, rfl, ?_⟩
      dsimp only
      rw [hdisk]

/-! ## The first header -/

section Buffered

variable {dec : Decompressor} {D H : Bytes} {e : Failure} {fate : Fate}

theorem parseHeader_invalid {block : Bytes} {e : ErrorCode}
    (h : parseHeader block = .error e) : e = invalidHeader := by
  unfold parseHeader at h
  dsimp only at h
  split at h
  · cases h
    rfl
  · split at h <;> cases h

theorem BeginsWithHeader.of_prefix (hbegins : H <+: D)
    (h : BeginsWithHeader H) : BeginsWithHeader D := by
  obtain ⟨tail, rfl⟩ := hbegins
  obtain ⟨hlength, hheader⟩ := h
  have hblock : segment (H ++ tail) 0 blockSize = segment H 0 blockSize := by
    rw [segment, segment, List.drop_zero, List.drop_zero,
      List.take_append_of_le_length hlength]
  refine ⟨?_, by rwa [hblock]⟩
  rw [List.length_append]
  omega

theorem Refused.not_isEmptyArchive (h : Refused D) : ¬IsEmptyArchive D := by
  rintro ⟨-, hzero, hagain⟩
  rw [(h.2 hzero).2] at hagain
  cases hagain

theorem Refused.not_tooShort (h : Refused D) : ¬TooShort D := by
  rintro (hshort | ⟨hzero, hshort⟩)
  · exact absurd h.1 (by omega)
  · exact absurd (h.2 hzero).1 (by omega)

theorem IsEmptyArchive.not_tooShort (h : IsEmptyArchive D) : ¬TooShort D := by
  have hlength := h.1
  rintro (hshort | ⟨-, hshort⟩) <;> omega

/-- Without a header at the beginning, reading one fails for one of three
reasons. -/
theorem Buffered.HandsOver.readHeader (fuel : Nat)
    {b : (dec.reader fuel).State} (h : Buffered.HandsOver b H e)
    (hH : ¬BeginsWithHeader H) :
    ∃ failure b', readHeader (dec.reader fuel) b =
        some (.error failure, b') ∧
      (TooShort H ∧ failure = e ∨ Refused H ∧ failure = some invalidHeader ∨
        IsEmptyArchive H ∧ failure = some streamEnd) := by
  unfold Tar.readHeader readBytes
  obtain ⟨b₁, ⟨hlong, hfirst, h₁⟩ | ⟨hshort, hfirst⟩⟩ :=
    h.readFull (le_refl blockSize)
  · have hblock : H.take blockSize = segment H 0 blockSize := rfl
    rw [hfirst]
    dsimp only
    by_cases hzero : isZeroBlock (segment H 0 blockSize) = true
    · rw [hblock, if_pos hzero]
      have hdrop : (H.drop blockSize).length = H.length - blockSize :=
        List.length_drop
      obtain ⟨b₂, ⟨henough, hsecond, -⟩ | ⟨hshort, hsecond⟩⟩ :=
        h₁.readFull (le_refl blockSize)
      · have hagain : (H.drop blockSize).take blockSize =
            segment H blockSize blockSize := rfl
        rw [hsecond]
        dsimp only
        rw [hagain]
        by_cases hend : isZeroBlock (segment H blockSize blockSize) = true
        · rw [if_pos hend]
          exact ⟨_, b₂, rfl, .inr (.inr ⟨⟨by omega, hzero, hend⟩, rfl⟩)⟩
        · rw [if_neg hend]
          refine ⟨_, b₂, rfl, .inr (.inl ⟨⟨hlong, fun _ => ⟨by omega, ?_⟩⟩,
            rfl⟩)⟩
          simpa using hend
      · rw [hsecond]
        exact ⟨e, b₂, rfl, .inl ⟨.inr ⟨hzero, by omega⟩, rfl⟩⟩
    · rw [hblock, if_neg hzero]
      cases hparse : parseHeader (segment H 0 blockSize) with
      | error e =>
          rw [parseHeader_invalid hparse]
          exact ⟨_, b₁, rfl, .inr (.inl ⟨⟨hlong, fun h => absurd h hzero⟩,
            rfl⟩)⟩
      | ok header =>
          exact absurd ⟨hlong, by simpa using hzero, header, hparse⟩ hH
  · rw [hfirst]
    exact ⟨e, b₁, rfl, .inl ⟨.inl hshort, rfl⟩⟩

theorem discernible_invalidHeader :
    Discernible (some invalidHeader) fate ↔ fate = .complete := by
  refine ⟨?_, fun h => ⟨_, rfl, rfl, by decide, fun _ => h⟩⟩
  rintro ⟨_, ⟨⟩, -, -, hfate⟩
  exact hfate (.inl rfl)

theorem EndsQuietly.not_discernible (h : EndsQuietly e) :
    ¬Discernible e fate := by
  rintro ⟨ec, rfl, -, hended, -⟩
  exact hended (h ec rfl)

theorem EndsLoudly.discernible (h : EndsLoudly e) : Discernible e fate := by
  have hcode : ErrorCode.errExtractGeneral ≠ ErrorCode.errNotTarFile ∧
      ErrorCode.errExtractGeneral ≠ ErrorCode.errAnotherWay := by decide
  obtain ⟨m, rfl⟩ := h
  refine ⟨_, rfl, rfl, ?_, fun hother => ?_⟩
  · show ErrorCode.errExtractGeneral ≠ ErrorCode.errEnded
    decide
  · exact hother.elim (absurd · hcode.1) (absurd · hcode.2)

theorem endsQuietly_streamEnd : EndsQuietly (some streamEnd) := by
  rintro _ ⟨⟩
  rfl

theorem discard_nothing {fuel : Nat} (hfuel : 0 < fuel) (b : Buffered dec) :
    (dec.reader fuel).discard 0 b = some (.ok (), b) := by
  obtain ⟨rounds, rfl⟩ := Nat.exists_eq_add_of_lt hfuel
  have hbody : dec.discardBody (0, b) = some (.done (.ok (), b)) :=
    if_pos (le_refl 0)
  show loop dec.discardBody (0 + rounds + 1) (0, b) = some (.ok (), b)
  exact loop_done hbody

end Buffered

/-! ## The first phase -/

section FirstPhase

variable {R : ExtractReader} {fuel : Nat} {s s' : R.State} {e : Failure}

theorem next_of_readHeader (rt : Runtime) (ec : ErrorCode)
    (hfuel : 0 < fuel) (hdiscard : R.discard 0 s = some (.ok (), s))
    (hread : readHeader R s = some (.error e, s')) :
    next rt R fuel ec { source := s } =
      some ⟨none, e.getD ec, { source := s' }⟩ := by
  have hheader : nextHeader R { ec := ec, reader := { source := s } } =
      some (.error e, { ec := ec, reader := { source := s' } }) := by
    unfold nextHeader
    dsimp only
    rw [hdiscard]
    dsimp only
    rw [hdiscard]
    dsimp only
    rw [hread]
    rfl
  obtain ⟨fuel, rfl⟩ := Nat.exists_eq_add_of_lt hfuel
  refine loop_done ?_
  unfold nextBody
  rw [hheader]
  rfl

theorem Extractor.extract_of_readHeader (x : Extractor) (ec : ErrorCode)
    (hfuel : 0 < fuel) (hdiscard : R.discard 0 s = some (.ok (), s))
    (hread : readHeader R s = some (.error e, s'))
    (hcreated : (x.host.perform (.createDirectories x.host.destination) ec
      []).ok = true) :
    ∃ log, x.extract R fuel s ec =
      some (Extractor.finish (e.getD ec) ({ source := s' } : Reader R) log) := by
  have hec : (x.host.perform (.createDirectories x.host.destination) ec
      []).ec = ec := by
    rcases perform_cases x.host (.createDirectories x.host.destination) ec []
      with hperform | ⟨e, -, hperform⟩
    · rw [hperform]
    · rw [hperform] at hcreated
      cases hcreated
  generalize hlog : (x.host.perform (.createDirectories x.host.destination) ec
    []).log = log
  obtain ⟨rounds, hrounds⟩ := Nat.exists_eq_add_of_lt hfuel
  have hbody : x.extractBody fuel (⟨{ source := s }, ec, log, 0⟩ :
      ExtractLoop R) = some (.done (Extractor.finish (e.getD ec)
        ({ source := s' } : Reader R) log)) := by
    unfold Extractor.extractBody
    dsimp only
    rw [next_of_readHeader x.rt ec hfuel hdiscard hread]
  refine ⟨log, ?_⟩
  unfold Extractor.extract
  dsimp only
  rw [hcreated, Bool.not_true, if_neg Bool.false_ne_true, hec, hlog]
  conv_lhs => rw [hrounds]
  rw [hrounds] at hbody
  exact loop_done hbody

theorem finish_another {e : ErrorCode}
    (h : AsksAnotherWay e) (s : R.State) (log : Log) :
    ∃ ec, Extractor.finish e ({ source := s } : Reader R) log =
        ⟨false, ec, log⟩ ∧ ec.code = ErrorCode.errAnotherWay := by
  unfold Extractor.finish
  rcases h with h | h
  · rw [if_pos ⟨rfl, h⟩]
    exact ⟨_, rfl, rfl⟩
  · rw [if_neg, if_pos]
    · exact ⟨e, rfl, h⟩
    · refine ⟨?_, ?_⟩
      · unfold ErrorCode.isError
        rw [h]
        decide
      · rw [h]
        decide
    · rintro ⟨-, hcode⟩
      rw [h] at hcode
      exact absurd hcode (by decide)

theorem finish_failed {e : ErrorCode}
    (h : ¬AsksAnotherWay e) (herror : e.isError = true)
    (hended : e.code ≠ ErrorCode.errEnded) (s : R.State) (log : Log) :
    Extractor.finish e ({ source := s } : Reader R) log =
      ⟨false, e, log⟩ := by
  unfold Extractor.finish
  rw [if_neg fun hnot => h (.inl hnot.2), if_pos ⟨herror, hended⟩]

theorem finish_ended {e : ErrorCode}
    (h : ¬(e.isError = true ∧ e.code ≠ ErrorCode.errEnded)) (s : R.State)
    (log : Log) :
    Extractor.finish e ({ source := s } : Reader R) log =
      ⟨true, ErrorCode.cleared, log⟩ := by
  unfold Extractor.finish
  rw [if_neg, if_neg h]
  rintro ⟨-, hcode⟩
  refine h ⟨?_, ?_⟩
  · unfold ErrorCode.isError
    rw [hcode]
    decide
  · rw [hcode]
    decide

variable {x : UniversalExtractor} {second : R.State} {ec e' : ErrorCode}
  {log : Log}

theorem UniversalExtractor.extract_of_ok
    (h : x.tarExtractor.extract R fuel s ec = some ⟨true, e', log⟩) :
    x.extract R fuel s second ec = some ⟨true, e', none⟩ := by
  unfold UniversalExtractor.extract
  rw [h]
  rfl

theorem UniversalExtractor.extract_of_failed
    (h : x.tarExtractor.extract R fuel s ec = some ⟨false, e', log⟩)
    (hcode : e'.code ≠ ErrorCode.errAnotherWay) :
    x.extract R fuel s second ec = some ⟨false, e', none⟩ := by
  unfold UniversalExtractor.extract
  rw [h]
  dsimp only
  rw [if_neg Bool.false_ne_true, if_pos hcode]

theorem UniversalExtractor.extract_of_another
    (h : x.tarExtractor.extract R fuel s ec = some ⟨false, e', log⟩)
    (hcode : e'.code = ErrorCode.errAnotherWay) :
    x.extract R fuel s second ec = x.singleFileExtract R fuel second e' log := by
  unfold UniversalExtractor.extract
  rw [h]
  dsimp only
  rw [if_neg Bool.false_ne_true, if_neg (not_not.mpr hcode)]

end FirstPhase

/-! ## The second phase -/

section SecondPhase

variable {x : UniversalExtractor} {dec : Decompressor} {file : SourceFile}
  {init : dec.State} {D : Bytes} {fate : Fate} {fuel : Nat}

/-- The copy ends with a failed write, or as a success, which is deserved if
the decoding is complete. -/
def CopyEnds (x : UniversalExtractor) (D : Bytes) (fate : Fate)
    (r : Unpacked) : Prop :=
  r.ok = true ∧ (fate = .complete → r.target = some D) ∨
    r.ok = false ∧ r.target ≠ some D ∧ ∃ log, x.host.disk log ≠ none

variable (supply : Supply file dec init D fate)

include supply

theorem copyBody_spec (hfault : ∀ n, file.fault n = none)
    (hfuel : 2 * D.length + 1 < fuel) {l : CopyLoop (dec.reader fuel)}
    {p : Nat} (hat : supply.delivers.At l.source p)
    (hcontent : l.content = D.take p) :
    ∃ step, x.copyBody (dec.reader fuel) l = some step ∧
      step.Sat (fun l' => ∃ q, p < q ∧ supply.delivers.At l'.source q ∧
        l'.content = D.take q) (CopyEnds x D fate) := by
  obtain ⟨⟨outcome, b⟩, hread⟩ := hat.read_returns copySize
  have hread' : (dec.reader fuel).read copySize l.source =
      some (outcome, b) := hread
  -- A complete stream is not left before its end.
  have hwhole : fate = .complete → (∀ got, outcome = .ok got → got = []) →
      l.content = D := by
    rintro rfl hnone
    rcases Nat.lt_or_ge p D.length with hp | hp
    · obtain ⟨got, b₁, hgot, hne, -⟩ :=
        (supply.answers hfault hfuel).read hat hp trivial
          (by decide : 0 < copySize)
      rw [hread'] at hgot
      cases hgot
      exact absurd (hnone got rfl) hne
    · rw [hcontent, List.take_of_length_le hp]
  unfold UniversalExtractor.copyBody
  rw [hread']
  cases outcome with
  | error e =>
      refine ⟨_, rfl, .inl ⟨rfl, fun hfate => congrArg some ?_⟩⟩
      refine hwhole hfate ?_
      intro got hgot
      cases hgot
  | ok got =>
      dsimp only
      by_cases hempty : got.isEmpty = true
      · rw [if_pos hempty]
        refine ⟨_, rfl, .inl ⟨rfl, fun hfate => congrArg some ?_⟩⟩
        refine hwhole hfate ?_
        rintro got ⟨⟩
        exact List.isEmpty_iff.mp hempty
      · rw [if_neg hempty]
        obtain ⟨-, hgot, hat'⟩ := Delivers.At.read_ok hat hread
        have hpos : 0 < got.length := by
          rw [List.isEmpty_iff] at hempty
          exact List.length_pos_iff.mpr hempty
        have hle := Delivers.At.le hat'
        rcases perform_cases x.host (.write got) l.ec l.log with
          hperform | ⟨e, hdisk, hperform⟩
        · rw [hperform]
          refine ⟨_, rfl, p + got.length, by omega, hat', ?_⟩
          show l.content ++ got = _
          rw [List.take_add, ← hcontent]
          exact congrArg (l.content ++ ·) hgot
        · rw [hperform]
          refine ⟨_, rfl, .inr ⟨rfl, ?_, _, by rw [hdisk]; simp⟩⟩
          intro heq
          have hlength := congrArg List.length (Option.some.inj heq)
          rw [hcontent, List.length_take] at hlength
          omega

theorem copy_spec (hfault : ∀ n, file.fault n = none)
    (hfuel : 2 * D.length + 1 < fuel) (ec : ErrorCode) (log : Log) :
    ∃ r, loop (x.copyBody (dec.reader fuel)) fuel
        ⟨(⟨[], init⟩ : Buffered dec), ec, log, []⟩ = some r ∧
      CopyEnds x D fate r := by
  have hstart : supply.delivers.At ⟨[], init⟩ 0 :=
    Delivers.at_start supply.start
  obtain ⟨r, hr⟩ : ∃ r, loop (x.copyBody (dec.reader fuel)) fuel
      ⟨(⟨[], init⟩ : Buffered dec), ec, log, []⟩ = some r := by
    refine loop_returns (B := fun m l => ∃ p, supply.delivers.At l.source p ∧
      l.content = D.take p ∧ D.length - p ≤ m) (m := D.length) ?_
      ⟨0, hstart, rfl, by omega⟩ (by omega)
    rintro m l ⟨p, hat, hcontent, hm⟩
    obtain ⟨step, hstep, hsat⟩ :=
      copyBody_spec (x := x) supply hfault hfuel hat hcontent
    refine ⟨step, hstep, ?_⟩
    rintro l' rfl
    obtain ⟨q, hlt, hat', hcontent'⟩ := hsat
    have hle := Delivers.At.le hat'
    exact ⟨D.length - q, by omega, q, hat', hcontent', le_refl _⟩
  refine ⟨r, hr, ?_⟩
  refine loop_spec (I := fun l => ∃ p, supply.delivers.At l.source p ∧
    l.content = D.take p) ?_ ⟨0, hstart, rfl⟩ hr
  rintro l step ⟨p, hat, hcontent⟩ hstep
  obtain ⟨step', hstep', hsat⟩ :=
    copyBody_spec (x := x) supply hfault hfuel hat hcontent
  rw [hstep] at hstep'
  cases hstep'
  refine hsat.mono ?_ fun _ h => h
  rintro l' ⟨q, -, hat', hcontent'⟩
  exact ⟨q, hat', hcontent'⟩

end SecondPhase

/-! ## Both phases -/

section BothPhases

variable {x : UniversalExtractor} {dec : Decompressor} {file : SourceFile}
  {init init' : dec.State} {D : Bytes} {fate : Fate} {fuel : Nat}

theorem faithful_failed (D : Bytes) (fate : Fate) (ec : ErrorCode) :
    Unpacked.Faithful D fate ⟨false, ec, none⟩ :=
  ⟨by simp, fun _ => rfl⟩

theorem not_faithful_success (D : Bytes) (fate : Fate) (ec : ErrorCode) :
    ¬Unpacked.Faithful D fate ⟨true, ec, none⟩ := by
  rintro ⟨h, -⟩
  cases h.mp rfl

/-- The second phase is faithful if the decoding is complete.  Without a
failure of the file system it is faithful only then. -/
theorem singleFileExtract_spec (supply : Supply file dec init D fate)
    (hfault : ∀ n, file.fault n = none) (hfuel : 2 * D.length + 1 < fuel)
    (ec : ErrorCode) (log : Log) :
    ∃ r, x.singleFileExtract (dec.reader fuel) fuel
        (⟨[], init⟩ : Buffered dec) ec log = some r ∧
      (fate = .complete → r.Faithful D fate) ∧
      ((∀ log, x.host.disk log = none) → r.Faithful D fate →
        fate = .complete) := by
  unfold UniversalExtractor.singleFileExtract
  dsimp only
  rcases perform_cases x.host
      (.newFile x.target x.now x.host.options.overwriteMode) ec log with
    hperform | ⟨e, hdisk, hperform⟩
  · rw [hperform]
    obtain ⟨r, hr, hends⟩ := copy_spec (x := x) supply hfault hfuel ec
      (log ++ [.newFile x.target x.now x.host.options.overwriteMode])
    refine ⟨r, hr, ?_, ?_⟩
    · intro hfate
      rcases hends with ⟨hok, hwhole⟩ | ⟨hok, hne, -⟩
      · exact ⟨⟨fun _ => hwhole hfate, fun _ => hok⟩, fun h => absurd hfate h⟩
      · refine ⟨⟨fun h => ?_, fun h => absurd h hne⟩, fun _ => hok⟩
        rw [hok] at h
        cases h
    · intro hhealthy hfaithful
      rcases hends with ⟨hok, -⟩ | ⟨-, -, log', hdisk⟩
      · by_contra hfate
        rw [hfaithful.2 hfate] at hok
        cases hok
      · exact absurd (hhealthy log') hdisk
  · rw [hperform]
    refine ⟨_, rfl, fun _ => faithful_failed D fate _, fun hhealthy _ => ?_⟩
    rw [hhealthy] at hdisk
    cases hdisk

theorem universalExtract_spec {first b : (dec.reader fuel).State}
    {failure : Failure} (second : Supply file dec init' D fate)
    (hfault : ∀ n, file.fault n = none) (hfuel : 2 * D.length + 1 < fuel)
    (hread : readHeader (dec.reader fuel) first = some (.error failure, b)) :
    ∃ r, x.extract (dec.reader fuel) fuel first
        (⟨[], init'⟩ : Buffered dec) ErrorCode.cleared = some r ∧
      (Discernible failure fate → r.Faithful D fate) ∧
      ((∀ log, x.host.disk log = none) → r.Faithful D fate →
        Discernible failure fate) := by
  have hpositive : 0 < fuel := by omega
  rcases perform_cases x.tarExtractor.host
      (.createDirectories x.tarExtractor.host.destination) ErrorCode.cleared
      [] with hperform | ⟨e, hdisk, hperform⟩
  · obtain ⟨log, hextract⟩ := x.tarExtractor.extract_of_readHeader
      ErrorCode.cleared hpositive (discard_nothing hpositive _) hread
      (by rw [hperform])
    cases failure with
    | none =>
        -- No error code is a success.
        rw [Option.getD_none, Extractor.finish_cleared] at hextract
        refine ⟨_, UniversalExtractor.extract_of_ok hextract, ?_, ?_⟩
        · rintro ⟨e, h, -⟩
          cases h
        · intro _ hfaithful
          exact absurd hfaithful (not_faithful_success D fate _)
    | some e =>
        rw [Option.getD_some] at hextract
        by_cases hends : e.isError = true ∧ e.code ≠ ErrorCode.errEnded
        · by_cases hother : AsksAnotherWay e
          · obtain ⟨ec, hfinish, hcode⟩ := finish_another hother b log
            rw [hfinish] at hextract
            obtain ⟨r, hr, hfaithful, hcomplete⟩ :=
              singleFileExtract_spec (x := x) second hfault hfuel ec log
            refine ⟨r, ?_, ?_, ?_⟩
            · exact (UniversalExtractor.extract_of_another hextract hcode).trans
                hr
            · rintro ⟨_, ⟨⟩, -, -, hfate⟩
              exact hfaithful (hfate hother)
            · intro hhealthy h
              exact ⟨e, rfl, hends.1, hends.2, fun _ => hcomplete hhealthy h⟩
          · rw [finish_failed hother hends.1 hends.2] at hextract
            refine ⟨_, UniversalExtractor.extract_of_failed hextract
              fun hcode => hother (.inr hcode),
              fun _ => faithful_failed D fate e, fun _ _ => ?_⟩
            exact ⟨e, rfl, hends.1, hends.2, fun h => absurd h hother⟩
        · -- So is the code for the end of an archive.
          rw [finish_ended hends] at hextract
          refine ⟨_, UniversalExtractor.extract_of_ok hextract, ?_, ?_⟩
          · rintro ⟨_, ⟨⟩, herror, hended, -⟩
            exact absurd ⟨herror, hended⟩ hends
          · intro _ hfaithful
            exact absurd hfaithful (not_faithful_success D fate _)
  · have hextract : x.tarExtractor.extract (dec.reader fuel) fuel first
        ErrorCode.cleared =
        some ⟨false, e.toErrorCode, [] ++
          [.createDirectories x.tarExtractor.host.destination]⟩ := by
      unfold Extractor.extract
      dsimp only
      rw [hperform]
      rfl
    have hcode : e.toErrorCode.code ≠ ErrorCode.errAnotherWay := by
      have hle := e.le
      show (e.code : Int) ≠ ErrorCode.errAnotherWay
      unfold ErrorCode.errGeneral at hle
      unfold ErrorCode.errAnotherWay
      omega
    refine ⟨_, UniversalExtractor.extract_of_failed hextract hcode,
      fun _ => faithful_failed D fate _, fun hhealthy _ => ?_⟩
    have hnone : x.tarExtractor.host.disk ([] ++
        [.createDirectories x.tarExtractor.host.destination]) = none :=
      hhealthy _
    rw [hnone] at hdisk
    cases hdisk

end BothPhases

/-! ## The formats -/

section Formats

variable {libs : Libraries} {file : SourceFile} {fuel : Nat}
  {f₀ f₁ : FileState} {D : Bytes} {fate : Fate} {k : Compression}

theorem Compression.DecodesPromptly.again (hpos : f₁.pos = f₀.pos)
    (h : k.DecodesPromptly libs file f₀ D fate) :
    k.DecodesPromptly libs file f₁ D fate := by
  obtain ⟨pos, calls⟩ := f₀
  obtain ⟨pos', calls'⟩ := f₁
  obtain rfl : pos' = pos := hpos
  cases k <;> exact h

/-- What a reader hands over, and how it fails where the first header is
missing. -/
theorem Compression.handsOver (hk : k ≠ .brotli) (hfuel : EnoughFuel file D fuel)
    (hfault : ∀ n, file.fault n = none)
    (hdecodes : k.DecodesPromptly libs file f₀ D fate) :
    ∃ H e, HandsOver (k.decompressor libs file fuel)
        (k.init libs file fuel f₀) H e ∧ H <+: D ∧
      (fate = .complete → H = D) ∧
      (TooShort H → (k.IsLoud fate H → EndsLoudly e) ∧
        (¬k.IsLoud fate H → EndsQuietly e)) := by
  by_cases hloud : fate = .corrupt ∨ k = .xz ∧ fate ≠ .complete
  · obtain ⟨delivers, hends, hstart⟩ :=
      Compression.loud hk hloud hfuel hfault hdecodes
    obtain ⟨H, e, hhands, hbegins, he⟩ := hends.handsOver hstart
    have hne : fate ≠ .complete := by
      rcases hloud with rfl | h
      · decide
      · exact h.2
    refine ⟨H, e, hhands, hbegins, fun h => absurd h hne,
      fun _ => ⟨fun _ => he, fun hnot => absurd ?_ hnot⟩⟩
    exact hloud.imp id fun h => ⟨h.1, fun h => absurd h hne⟩
  rw [not_or, not_and, not_not] at hloud
  obtain ⟨hcorrupt, hxz⟩ := hloud
  by_cases hk' : k = .xz
  · obtain rfl := hxz hk'
    subst hk'
    obtain ⟨decoding⟩ := id hdecodes
    rcases Nat.lt_or_ge D.length xzoutsize with hlt | hge
    · obtain ⟨e, hhands, hloudly, hquietly⟩ :=
        XzStream.handsOver_short hfault hfuel.1 decoding hlt
      refine ⟨D, e, hhands, List.prefix_refl D, fun _ => rfl, fun _ => ⟨?_,
        fun hnot => hquietly ?_⟩⟩
      · rintro (h | ⟨-, hne⟩)
        · cases h
        · exact hloudly (hne rfl)
      · by_contra hne
        exact hnot (.inr ⟨rfl, fun _ => hne⟩)
    · -- The stream is longer than two blocks.
      have hroom : 2 * blockSize ≤ xzoutsize := by decide
      obtain ⟨supply⟩ := Compression.supply (by decide) hfuel hdecodes
      obtain ⟨e, hhands⟩ := supply.handsOver hfault
      refine ⟨D, e, hhands, List.prefix_refl D, fun _ => rfl, ?_⟩
      rintro (hshort | ⟨-, hshort⟩) <;> omega
  · obtain ⟨delivers, hends, hstart⟩ :=
      Compression.quiet hk hk' hcorrupt hfuel hfault hdecodes
    obtain ⟨e, hhands, he⟩ := hends.handsOver hstart
    refine ⟨D, e, hhands, List.prefix_refl D, fun _ => rfl,
      fun _ => ⟨?_, fun _ => he⟩⟩
    rintro (h | ⟨h, -⟩)
    · exact absurd h hcorrupt
    · exact absurd h hk'

/-- A file that decodes to what is no archive is extracted faithfully if what is
handed over of it can be told; where nothing fails in the file system, it is
extracted faithfully only then. -/
theorem universalExtract_faithful_iff (x : UniversalExtractor)
    (hk : k ≠ .brotli) (hdecodes : k.DecodesPromptly libs file f₀ D fate)
    (hpos : f₁.pos = f₀.pos) (hfault : ∀ n, file.fault n = none)
    (hfuel : EnoughFuel file D fuel) (hD : ¬BeginsWithHeader D) :
    ∃ r H e, x.extract (k.reader libs file fuel) fuel
        (k.start libs file fuel f₀) (k.start libs file fuel f₁)
        ErrorCode.cleared = some r ∧
      HandsOver (k.decompressor libs file fuel) (k.init libs file fuel f₀) H
        e ∧
      H <+: D ∧ (fate = .complete → H = D) ∧
      (Told k fate H → r.Faithful D fate) ∧
      ((∀ log, x.host.disk log = none) →
        (r.Faithful D fate ↔ Told k fate H)) := by
  obtain ⟨second⟩ := Compression.supply hk hfuel (hdecodes.again hpos)
  obtain ⟨H, e, hhands, hbegins, hwhole, hends⟩ :=
    Compression.handsOver hk hfuel hfault hdecodes
  obtain ⟨failure, b, hread, hcases⟩ := Buffered.HandsOver.readHeader
    fuel hhands.buffered fun h => hD (h.of_prefix hbegins)
  have htold : Discernible failure fate ↔ Told k fate H := by
    rcases hcases with ⟨hshort, rfl⟩ | ⟨hrefused, rfl⟩ | ⟨hempty, rfl⟩
    · have hnot : ¬Refused H := fun h => h.not_tooShort hshort
      obtain ⟨hloudly, hquietly⟩ := hends hshort
      by_cases hloud : k.IsLoud fate H
      · exact iff_of_true (hloudly hloud).discernible (.inr ⟨hshort, hloud⟩)
      · refine iff_of_false (hquietly hloud).not_discernible ?_
        exact not_or.mpr ⟨fun h => hnot h.1, fun h => hloud h.2⟩
    · rw [discernible_invalidHeader]
      refine ⟨fun h => .inl ⟨hrefused, h⟩, ?_⟩
      rintro (h | h)
      · exact h.2
      · exact absurd h.1 hrefused.not_tooShort
    · refine iff_of_false endsQuietly_streamEnd.not_discernible ?_
      rintro (h | h)
      · exact h.1.not_isEmptyArchive hempty
      · exact hempty.not_tooShort h.1
  obtain ⟨r, hr, henough, honly⟩ :=
    universalExtract_spec (x := x) second hfault hfuel.2 hread
  have hall := And.intro hhands <| And.intro hbegins <| And.intro hwhole <|
    And.intro (fun h => henough (htold.mpr h))
      fun hhealthy => Iff.intro (fun h => htold.mp (honly hhealthy h))
        fun h => henough (htold.mpr h)
  refine ⟨r, H, e, ?_⟩
  cases k with
  | brotli => exact absurd rfl hk
  | gz => exact ⟨hr, hall⟩
  | bz2 => exact ⟨hr, hall⟩
  | zstd => exact ⟨hr, hall⟩
  | xz => exact ⟨hr, hall⟩

/-- An extraction to `C:\d\a`. -/
def letterExtractor : UniversalExtractor where
  rt := plainRuntime
  host :=
    { destination := WinPath.ofText (wide "C:\\d")
      options := {}
      encodeToNativePath := fun _ name => name.map UInt8.toUInt16
      disk := fun _ => none
      symlinks := fun _ =>
        ⟨⟨WinPath.ofText (wide "C:\\"), fun _ => WinPath.ofText []⟩,
          none, none⟩
      progress := fun _ => true }
  target := WinPath.ofText (wide "C:\\d\\a")
  now := 0

theorem letterFile_decodes :
    Compression.gz.DecodesPromptly letterLibraries letterFile ⟨0, 0⟩ [0x61]
      .complete :=
  ⟨letterDecoding (by decide) (by decide) (by decide) 0x61 []⟩

theorem letterFile_decodes_zstd :
    Compression.zstd.DecodesPromptly letterLibraries letterFile ⟨0, 0⟩ [0x61]
      .complete :=
  Compression.decodes_delivered
    (letters_complete_zstd [([0x61], [0x61])] (by simp)) rfl

theorem letterFile_decodes_xz :
    Compression.xz.DecodesPromptly letterLibraries letterFile ⟨0, 0⟩ [0x61]
      .complete :=
  ⟨finishDecoding _⟩

theorem not_beginsWithHeader_letter : ¬BeginsWithHeader [0x61] := by
  rintro ⟨hle, -⟩
  exact absurd hle (by decide)

/-- A file that decodes to one byte: the reader for xz fails loudly where the
header is missing, those for gzip and zstd do not. -/
theorem letterFile_extracted :
    (∃ r, letterExtractor.extract
        (Compression.xz.reader letterLibraries letterFile 600000) 600000
        (Compression.xz.start letterLibraries letterFile 600000 ⟨0, 0⟩)
        (Compression.xz.start letterLibraries letterFile 600000 ⟨0, 2⟩)
        ErrorCode.cleared = some r ∧ r.Faithful [0x61] .complete) ∧
      (∃ r, letterExtractor.extract
        (Compression.gz.reader letterLibraries letterFile 600000) 600000
        (Compression.gz.start letterLibraries letterFile 600000 ⟨0, 0⟩)
        (Compression.gz.start letterLibraries letterFile 600000 ⟨0, 2⟩)
        ErrorCode.cleared = some r ∧ ¬r.Faithful [0x61] .complete) ∧
      ∃ r, letterExtractor.extract
        (Compression.zstd.reader letterLibraries letterFile 600000) 600000
        (Compression.zstd.start letterLibraries letterFile 600000 ⟨0, 0⟩)
        (Compression.zstd.start letterLibraries letterFile 600000 ⟨0, 2⟩)
        ErrorCode.cleared = some r ∧ ¬r.Faithful [0x61] .complete := by
  have hfuel : EnoughFuel letterFile [0x61] 600000 := ⟨by decide, by decide⟩
  have hnot : ∀ k : Compression, k ≠ .xz → ¬Told k .complete [0x61] := by
    rintro k hk (⟨⟨hle, -⟩, -⟩ | ⟨-, h | ⟨h, -⟩⟩)
    · exact absurd hle (by decide)
    · cases h
    · exact hk h
  refine ⟨?_, ?_, ?_⟩
  · obtain ⟨r, H, e, hr, -, -, hwhole, htold, -⟩ :=
      universalExtract_faithful_iff letterExtractor (by decide)
        letterFile_decodes_xz rfl (fun _ => rfl) hfuel
        not_beginsWithHeader_letter
    obtain rfl := hwhole rfl
    refine ⟨r, hr, htold (.inr ⟨.inl (by decide), .inr ⟨rfl, fun _ => ?_⟩⟩)⟩
    exact List.cons_ne_nil _ _
  · obtain ⟨r, H, e, hr, -, -, hwhole, -, hiff⟩ :=
      universalExtract_faithful_iff letterExtractor (by decide)
        letterFile_decodes rfl (fun _ => rfl) hfuel
        not_beginsWithHeader_letter
    obtain rfl := hwhole rfl
    exact ⟨r, hr, fun h => hnot _ (by decide) ((hiff fun _ => rfl).mp h)⟩
  · obtain ⟨r, H, e, hr, -, -, hwhole, -, hiff⟩ :=
      universalExtract_faithful_iff letterExtractor (by decide)
        letterFile_decodes_zstd rfl (fun _ => rfl) hfuel
        not_beginsWithHeader_letter
    obtain rfl := hwhole rfl
    exact ⟨r, hr, fun h => hnot _ (by decide) ((hiff fun _ => rfl).mp h)⟩

/-- Of that byte nothing is left. -/
theorem letter_not_extracted :
    ¬∀ (libs : Libraries) (file : SourceFile) (fuel : Nat)
        (f₀ f₁ : FileState) (D : Bytes) (fate : Fate) (k : Compression)
        (x : UniversalExtractor), k ≠ .brotli →
      k.DecodesPromptly libs file f₀ D fate → f₁.pos = f₀.pos →
      (∀ n, file.fault n = none) → EnoughFuel file D fuel →
      ¬BeginsWithHeader D →
      ∀ r, x.extract (k.reader libs file fuel) fuel
          (k.start libs file fuel f₀) (k.start libs file fuel f₁)
          ErrorCode.cleared = some r →
        r.Faithful D fate := by
  intro hall
  have hrun : letterExtractor.extract
      (Compression.gz.reader letterLibraries letterFile 600000) 600000
      (Compression.gz.start letterLibraries letterFile 600000 ⟨0, 0⟩)
      (Compression.gz.start letterLibraries letterFile 600000 ⟨0, 2⟩)
      ErrorCode.cleared = some ⟨true, ErrorCode.cleared, none⟩ := by
    rfl
  exact not_faithful_success [0x61] .complete ErrorCode.cleared
    (hall letterLibraries letterFile 600000 ⟨0, 0⟩ ⟨0, 2⟩ [0x61] .complete
      .gz letterExtractor (by decide) letterFile_decodes rfl (fun _ => rfl)
      ⟨by decide, by decide⟩ not_beginsWithHeader_letter _ hrun)

end Formats

end Baulk.Tar
