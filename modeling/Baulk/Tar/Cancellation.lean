import Baulk.Tar.Compression
import Baulk.Tar.ErrorCodes
import Baulk.Tar.Extractor

/-!
# Canceling the extraction of a tar archive

When the progress callback returns false, the writer leaves the error code as
it is, and `WriteTo` has just cleared it.  The loop over the entries then sees
a failure without a code: it goes on to the next entry if errors are ignored,
and ends the extraction as a success if not.
-/

namespace Baulk.Tar

open Archive
open Support (Step loop loop_spec)

variable {R : ExtractReader} {P : ErrorCode → Prop}

/-! ## Writers -/

/-- `WriteTo` stops at a chunk that is refused and fails as the writer did.
Other failures have the property `P`. -/
def Honours (R : ExtractReader) (P : ErrorCode → Prop) : Prop :=
  ∀ {w n s s'} {result : WriteResult},
    R.writeTo w n s = some (result, s') →
    (∃ e, result.outcome = .error e ∧ RefusesLast w result.chunks e) ∨
      AcceptsChunks w result.chunks ∧
        ∀ e, result.outcome = .error e → Failure.Sat P e

theorem fileReader_honours (file : SourceFile) (fuel : Nat)
    (hP : ∀ (e : SystemError) label, P (e.toErrorCode label)) :
    Honours (fileReader file fuel) P := by
  intro w n s s' result h
  refine loop_spec
    (I := fun l : FileReader.WriteLoop => AcceptsChunks w l.chunks)
    (Q := fun r : WriteResult × FileState =>
      (∃ e, r.1.outcome = .error e ∧ RefusesLast w r.1.chunks e) ∨
        AcceptsChunks w r.1.chunks ∧
          ∀ e, r.1.outcome = .error e → Failure.Sat P e)
    ?_ (acceptsChunks_nil w) h
  intro l step hl hstep
  unfold FileReader.writeBody at hstep
  split at hstep
  · cases hstep
    exact .inr ⟨hl, by simp⟩
  · dsimp only at hstep
    split at hstep
    · cases hstep
      refine .inr ⟨hl, ?_⟩
      rintro _ ⟨⟩
      exact failure_some (hP _ _)
    · split at hstep <;> rename_i hanswer <;> cases hstep
      · exact hl.concat hanswer
      · exact .inl ⟨_, rfl, hl.refuse hanswer⟩

/-- The code is not the one for a cancellation. -/
def Uncanceled (ec : ErrorCode) : Prop :=
  ec.code ≠ ErrorCode.errCanceled

theorem uncanceled_make {code : Int} (h : code ≠ ErrorCode.errCanceled)
    (message : WString) : Uncanceled (ErrorCode.make code message) :=
  h

theorem uncanceled_system (e : SystemError) (label : WString) :
    Uncanceled (e.toErrorCode label) := by
  have hlt := e.lt
  show (e.value : Int) ≠ 654321
  omega

theorem uncanceled_tar {ec : ErrorCode} (h : IsTarError ec) :
    Uncanceled ec := by
  unfold Uncanceled
  rcases h with h | h <;> rw [h] <;> decide

theorem fileReader_codes (file : SourceFile) (fuel : Nat) :
    Codes (fileReader file fuel) Uncanceled where
  ended := uncanceled_make (by decide)
  tar _ := uncanceled_tar
  read {n s s' e} h := by
    have hread : FileReader.read file n s = (.error e, s') := Option.some.inj h
    obtain ⟨-, _, err, -, rfl⟩ := FileReader.read_error_unread hread
    exact failure_some (uncanceled_system err _)
  discard {k s s' e} h := by
    have hseek : FileReader.discard file k s = (.error e, s') :=
      Option.some.inj h
    unfold FileReader.discard at hseek
    split at hseek
    · cases hseek
      exact failure_some (uncanceled_system _ _)
    · split at hseek <;> cases hseek
      exact failure_some (uncanceled_make (by decide) _)

/-! ## Decompressing readers -/

section Buffered

variable {dec : Decompressor} {fuel : Nat}
  (hdec : ∀ s s' e, dec.decompress s = some (.error e, s') → Failure.Sat P e)

include hdec

theorem refill_sat {b b' : Buffered dec} {e : Failure}
    (h : dec.refill b = some (.error e, b')) : Failure.Sat P e := by
  unfold Decompressor.refill at h
  split at h
  · split at h <;> cases h
    rename_i hdecompress
    exact hdec _ _ _ hdecompress
  · cases h

theorem read_sat {n : Nat} {b b' : Buffered dec} {e : Failure}
    (h : dec.read n b = some (.error e, b')) : Failure.Sat P e := by
  unfold Decompressor.read at h
  split at h <;> cases h
  rename_i hrefill
  exact refill_sat hdec hrefill

theorem discard_sat {k : Int} {b b' : Buffered dec} {e : Failure}
    (h : dec.discard fuel k b = some (.error e, b')) : Failure.Sat P e := by
  refine loop_spec (I := fun _ : Int × Buffered dec => True)
    (Q := fun r : Except Failure Unit × Buffered dec =>
      ∀ e, r.1 = .error e → Failure.Sat P e) ?_ trivial h e rfl
  intro l step _ hstep
  unfold Decompressor.discardBody at hstep
  split at hstep
  · cases hstep
    rintro _ ⟨⟩
  · split at hstep <;> cases hstep
    · rename_i hrefill
      rintro _ ⟨⟩
      exact refill_sat hdec hrefill
    · trivial

/-- The result of a loop that hands chunks to a writer. -/
def WriteHonours (P : ErrorCode → Prop) (w : Writer)
    (r : WriteResult × Buffered dec) : Prop :=
  (∃ e, r.1.outcome = .error e ∧ RefusesLast w r.1.chunks e) ∨
    AcceptsChunks w r.1.chunks ∧
      ∀ e, r.1.outcome = .error e → Failure.Sat P e

omit hdec in
theorem writeChunk_honours {w : Writer} {l : Decompressor.WriteLoop dec}
    (hl : AcceptsChunks w l.chunks) (filesize : Int) (b : Buffered dec)
    (minsize : Nat) :
    (Decompressor.writeChunk w l filesize b minsize).Sat
      (fun l => AcceptsChunks w l.chunks) (WriteHonours P w) := by
  unfold Decompressor.writeChunk
  dsimp only
  split
  · rename_i hanswer
    exact hl.concat hanswer
  · rename_i hanswer
    exact .inl ⟨_, rfl, hl.refuse hanswer⟩

theorem writeTo_honours {w : Writer} {n : Int} {b b' : Buffered dec}
    {result : WriteResult}
    (h : dec.writeTo fuel w n b = some (result, b')) :
    WriteHonours P w (result, b') := by
  refine loop_spec
    (I := fun l : Decompressor.WriteLoop dec => AcceptsChunks w l.chunks)
    (Q := WriteHonours P w) ?_ (acceptsChunks_nil w) h
  intro l step hl hstep
  unfold Decompressor.writeBody at hstep
  split at hstep
  · cases hstep
    exact .inr ⟨hl, by simp⟩
  · split at hstep <;> cases hstep
    · rename_i hrefill
      refine .inr ⟨hl, ?_⟩
      rintro _ ⟨⟩
      exact refill_sat hdec hrefill
    · exact writeChunk_honours hl _ _ _

theorem brotliWriteTo_honours {w : Writer} {n : Int} {b b' : Buffered dec}
    {result : WriteResult}
    (h : loop (brotliWriteBody dec w) fuel { filesize := n, buffer := b } =
      some (result, b')) :
    WriteHonours P w (result, b') := by
  refine loop_spec
    (I := fun l : Decompressor.WriteLoop dec => AcceptsChunks w l.chunks)
    (Q := WriteHonours P w) ?_ (acceptsChunks_nil w) h
  intro l step hl hstep
  unfold brotliWriteBody at hstep
  split at hstep
  · cases hstep
    exact .inr ⟨hl, by simp⟩
  · split at hstep <;> cases hstep
    · rename_i hrefill
      refine .inr ⟨hl, ?_⟩
      rintro _ ⟨⟩
      exact refill_sat hdec hrefill
    · exact writeChunk_honours hl _ _ _

end Buffered

/-- A failure of `decompress` is not a cancellation. -/
def FailsUncanceled {σ : Type} (r : Except Failure Bytes × σ) : Prop :=
  ∀ e, r.1 = .error e → Failure.Sat Uncanceled e

theorem failsUncanceled_ok {σ : Type} (out : Bytes) (s : σ) :
    FailsUncanceled (.ok out, s) := by
  rintro _ ⟨⟩

theorem failsUncanceled_silent {σ : Type} (s : σ) :
    FailsUncanceled (.error none, s) := by
  rintro _ ⟨⟩ _ ⟨⟩

theorem failsUncanceled_make {σ : Type} {code : Int}
    (h : code ≠ ErrorCode.errCanceled) (message : WString) (s : σ) :
    FailsUncanceled (.error (some (ErrorCode.make code message)), s) := by
  rintro _ ⟨⟩
  exact failure_some (uncanceled_make h message)

theorem failsUncanceled_read {σ : Type} {file : SourceFile} {len : Nat}
    {f f' : FileState} {e : Failure}
    (h : FileReader.read file len f = (.error e, f')) (s : σ) :
    FailsUncanceled (.error e, s) := by
  obtain ⟨-, _, err, -, rfl⟩ := FileReader.read_error_unread h
  rintro _ ⟨⟩
  exact failure_some (uncanceled_system err _)

section Decompressors

variable {file : SourceFile} {fuel : Nat} {codec : Zip.StreamCodec}

theorem blockStream_uncanceled {fatal : Int → Option ErrorCode}
    (hfatal : ∀ ret ec, fatal ret = some ec → ∃ m, ec = extractGeneral m)
    {s : BlockStream codec} {r : Except Failure Bytes × BlockStream codec}
    (h : loop (BlockStream.body file fatal) fuel s = some r) :
    FailsUncanceled r := by
  have hcall : ∀ s : BlockStream codec,
      (BlockStream.step fatal s).Sat (fun _ => True) FailsUncanceled := by
    intro s
    unfold BlockStream.step
    dsimp only
    split
    · rename_i ec hec
      obtain ⟨m, rfl⟩ := hfatal _ _ hec
      exact failsUncanceled_make (by decide) _ _
    · split
      · trivial
      · exact failsUncanceled_ok _ _
  refine loop_spec (I := fun _ => True) (Q := FailsUncanceled) ?_ trivial h
  intro s step _ hstep
  unfold BlockStream.body at hstep
  split at hstep
  · split at hstep
    · rename_i hread
      cases hstep
      exact failsUncanceled_read hread _
    · split at hstep <;> cases hstep
      · exact failsUncanceled_silent _
      · exact hcall _
  · cases hstep
    exact hcall _

theorem zstdStream_uncanceled {c : Zip.ZstdCodec} {s : ZstdStream c.codec}
    {r : Except Failure Bytes × ZstdStream c.codec}
    (h : loop (ZstdStream.body c file) fuel s = some r) :
    FailsUncanceled r := by
  have hcall : ∀ s : ZstdStream c.codec,
      (ZstdStream.step c s).Sat (fun _ => True) FailsUncanceled := by
    intro s
    unfold ZstdStream.step
    dsimp only
    split
    · exact failsUncanceled_make (by decide) _ _
    · split
      · trivial
      · exact failsUncanceled_ok _ _
  refine loop_spec (I := fun _ => True) (Q := FailsUncanceled) ?_ trivial h
  intro s step _ hstep
  unfold ZstdStream.body at hstep
  split at hstep
  · split at hstep
    · rename_i hread
      cases hstep
      exact failsUncanceled_read hread _
    · split at hstep <;> cases hstep
      · exact failsUncanceled_silent _
      · exact hcall _
  · cases hstep
    exact hcall _

theorem xzStream_uncanceled {s : XzStream codec}
    {r : Except Failure Bytes × XzStream codec}
    (h : loop (XzStream.body file) fuel s = some r) : FailsUncanceled r := by
  have hcall : ∀ s : XzStream codec,
      (XzStream.step s).Sat (fun _ => True) FailsUncanceled := by
    intro s
    unfold XzStream.step
    generalize (if s.input.isEmpty then Zip.lzmaFinish
      else Zip.lzmaRun) = action
    dsimp only
    split
    · exact failsUncanceled_ok _ _
    · split
      · exact failsUncanceled_make (by decide) _ _
      · trivial
  refine loop_spec (I := fun _ => True) (Q := FailsUncanceled) ?_ trivial h
  intro s step _ hstep
  unfold XzStream.body at hstep
  split at hstep
  · split at hstep
    · rename_i hread
      cases hstep
      exact failsUncanceled_read hread _
    · cases hstep
      exact hcall _
  · cases hstep
    exact hcall _

theorem brotliStream_uncanceled {s : BrotliStream codec}
    {r : Except Failure Bytes × BrotliStream codec}
    (h : loop (BrotliStream.body file) fuel s = some r) :
    FailsUncanceled r := by
  have hcall : ∀ s : BrotliStream codec,
      (BrotliStream.step s).Sat (fun _ => True) FailsUncanceled := by
    intro s
    unfold BrotliStream.step
    dsimp only
    split
    · trivial
    · exact failsUncanceled_ok _ _
  refine loop_spec (I := fun _ => True) (Q := FailsUncanceled) ?_ trivial h
  intro s step _ hstep
  unfold BrotliStream.body at hstep
  split at hstep
  · split at hstep
    · rename_i hread
      cases hstep
      exact failsUncanceled_read hread _
    · split at hstep <;> cases hstep
      · exact failsUncanceled_silent _
      · exact hcall _
  · cases hstep
    exact hcall _

end Decompressors

variable {libs : Libraries} {file : SourceFile} {fuel : Nat}

theorem decompressor_uncanceled (k : Compression)
    (s s' : (k.decompressor libs file fuel).State) (e : Failure)
    (h : (k.decompressor libs file fuel).decompress s = some (.error e, s')) :
    Failure.Sat Uncanceled e := by
  have hfails : FailsUncanceled ((.error e : Except Failure Bytes), s') := by
    cases k with
    | gz => exact blockStream_uncanceled (fun _ _ => gzipFatal_eq) h
    | bz2 =>
        unfold Compression.decompressor bzipDecompressor at h
        dsimp only at h
        split at h
        · cases h
          exact failsUncanceled_make (by decide) _ _
        · exact blockStream_uncanceled (fun _ _ => bzipFatal_eq) h
    | zstd => exact zstdStream_uncanceled h
    | xz =>
        unfold Compression.decompressor xzDecompressor at h
        dsimp only at h
        split at h
        · cases h
          exact failsUncanceled_make (by decide) _ _
        · exact xzStream_uncanceled h
    | brotli =>
        unfold Compression.decompressor brotliDecompressor at h
        dsimp only at h
        split at h
        · cases h
          exact failsUncanceled_make (by decide) _ _
        · exact brotliStream_uncanceled h
  exact hfails e rfl

/-- What a tar archive is read through. -/
inductive Stream where
  | plain
  | compressed (k : Compression)

def Stream.reader (libs : Libraries) (file : SourceFile) (fuel : Nat) :
    Stream → ExtractReader
  | plain => fileReader file fuel
  | compressed k => k.reader libs file fuel

theorem Stream.codes (stream : Stream) :
    Codes (stream.reader libs file fuel) Uncanceled := by
  cases stream with
  | plain => exact fileReader_codes file fuel
  | compressed k =>
      have hdec := @decompressor_uncanceled libs file fuel k
      refine ⟨uncanceled_make (by decide), fun _ => uncanceled_tar, ?_, ?_⟩
      · intro n s s' e h
        cases k <;> exact read_sat hdec h
      · intro n s s' e h
        cases k <;> exact discard_sat hdec h

theorem Stream.honours (stream : Stream) :
    Honours (stream.reader libs file fuel) Uncanceled := by
  cases stream with
  | plain => exact fileReader_honours file fuel uncanceled_system
  | compressed k =>
      have hdec := @decompressor_uncanceled libs file fuel k
      intro w n s s' result h
      cases k with
      | brotli => exact brotliWriteTo_honours hdec h
      | gz => exact writeTo_honours hdec h
      | bz2 => exact writeTo_honours hdec h
      | zstd => exact writeTo_honours hdec h
      | xz => exact writeTo_honours hdec h

/-! ## One entry -/

namespace Extractor

variable {x : Extractor}

/-- A chunk that the callback refuses ends the entry without an error code. -/
theorem extractData_refused (hR : Honours R P) {h : Header} {log : Log}
    {r r' : Reader R} {e : Extracted}
    (hrun : x.extractData h log r = some (e, r'))
    (hlog : x.host.AcceptsAll log) :
    x.host.AcceptsAll e.log ∨ e.ok = false ∧ e.ec = ErrorCode.cleared := by
  unfold extractData at hrun
  split at hrun
  · contradiction
  rename_i result r₁ hwrite
  unfold Reader.writeTo at hwrite
  split at hwrite <;> cases hwrite
  rename_i s hwrite
  dsimp only at hrun
  rcases hlog.consumeAll result.chunks with haccepts |
    ⟨front, hfront, hne, hcanceled⟩
  · left
    split at hrun <;> cases hrun
    · exact haccepts
    · exact haccepts.unreported (Log.unreported_concat _ (by simp))
  · right
    have hrefused : x.writer log front = .refuse none := by
      simp only [writer, hcanceled]
    rcases hR hwrite with ⟨e', houtcome, hlast, hothers⟩ | ⟨haccepts, -⟩
    · -- The callback is called no more, so this chunk is the last one.
      have hwhole : front = result.chunks := by
        by_contra hshort
        rw [hothers front hfront hne hshort] at hrefused
        contradiction
      rw [← hwhole, hrefused] at hlast
      cases hlast
      rw [houtcome] at hrun
      cases hrun
      exact ⟨rfl, rfl⟩
    · rw [haccepts front hfront hne] at hrefused
      contradiction

theorem unreported_perform (host : Host) {action : Action} (ec : ErrorCode)
    (log : Log) (h : ∀ n, action ≠ .report n) :
    log.Unreported (host.perform action ec log).log := by
  rw [host.perform_log]
  exact log.unreported_concat h

theorem extractEntry_refused (hR : Honours R P) {h : Header} {ec : ErrorCode}
    {log : Log} {r r' : Reader R} {e : Extracted}
    (hrun : x.extractEntry h ec log r = some (e, r'))
    (hlog : x.host.AcceptsAll log) :
    x.host.AcceptsAll e.log ∨ e.ok = false ∧ e.ec = ErrorCode.cleared := by
  unfold extractEntry at hrun
  split at hrun
  · cases hrun
    exact .inl hlog
  split at hrun
  · cases hrun
    exact .inl hlog
  split at hrun
  · cases hrun
    exact .inl (hlog.unreported (unreported_perform _ _ _ (by simp)))
  split at hrun
  · cases hrun
    exact .inl (hlog.unreported (Log.unreported_map _ _ (by simp)))
  split at hrun
  · cases hrun
    exact .inl hlog
  · rename_i out _ _ _ _ _ _
    dsimp only at hrun
    have hcreated := hlog.unreported
      (unreported_perform x.host ec log (by simp : ∀ n,
        Action.newFile out h.modTime true ≠ .report n))
    split at hrun
    · cases hrun
      exact .inl hcreated
    · exact extractData_refused hR hrun hcreated

/-! ## The whole extraction -/

theorem finish_log (ec : ErrorCode) (r : Reader R) (log : Log) :
    (finish ec r log).log = log := by
  unfold finish
  split
  · rfl
  · split <;> rfl

theorem finish_cleared (r : Reader R) (log : Log) :
    finish ErrorCode.cleared r log = ⟨true, ErrorCode.cleared, log⟩ := by
  unfold finish
  rw [if_neg (fun h => absurd h.2 (by decide)), if_neg (by decide)]

/-- If errors are not ignored, an extraction that the callback has refused is
reported as a success. -/
theorem extract_refused (hR : Honours R P) {fuel : Nat} {s : R.State}
    {ec : ErrorCode} {r : Extracted}
    (hignore : x.host.options.ignoreError = false)
    (hrun : x.extract R fuel s ec = some r) :
    x.host.AcceptsAll r.log ∨ r.ok = true := by
  have hstart : x.host.AcceptsAll
      (x.host.perform (.createDirectories x.host.destination) ec []).log := by
    have hempty : x.host.AcceptsAll [] := by
      intro before n after heq
      simp at heq
    exact hempty.unreported (unreported_perform _ _ _ (by simp))
  unfold extract at hrun
  dsimp only at hrun
  split at hrun
  · cases hrun
    exact .inl hstart
  refine loop_spec (I := fun l : ExtractLoop R => x.host.AcceptsAll l.log)
    (Q := fun r => x.host.AcceptsAll r.log ∨ r.ok = true) ?_ hstart hrun
  intro l step hl hstep
  unfold extractBody at hstep
  split at hstep
  · contradiction
  · cases hstep
    left
    show x.host.AcceptsAll (finish _ _ _).log
    rw [finish_log]
    exact hl
  · split at hstep
    · contradiction
    rename_i e r' hentry
    have hentered := hl.unreported
      (l.log.unreported_concat (by simp : ∀ n,
        Action.entry l.count ≠ .report n))
    rcases extractEntry_refused hR hentry hentered with haccepts |
      ⟨hfailed, hcleared⟩
    · split at hstep
      · cases hstep
        exact haccepts
      split at hstep
      · cases hstep
        exact .inl haccepts
      split at hstep <;> cases hstep
      · left
        show x.host.AcceptsAll (finish _ _ _).log
        rw [finish_log]
        exact haccepts
      · exact haccepts
    · rw [hfailed, hcleared, hignore] at hstep
      cases hstep
      right
      show (finish _ _ _).ok = true
      rw [finish_cleared]

theorem uncanceled_fs (e : FsError) : Uncanceled e.toErrorCode := by
  have hle := e.le
  show (e.code : Int) ≠ ErrorCode.errCanceled
  unfold ErrorCode.errGeneral at hle
  unfold ErrorCode.errCanceled
  omega

theorem perform_uncanceled (host : Host) (action : Action) {ec : ErrorCode}
    (hec : Uncanceled ec) (log : Log) :
    Uncanceled (host.perform action ec log).ec := by
  unfold Host.perform
  dsimp only
  split
  · exact hec
  · exact uncanceled_fs _

theorem symlink_uncanceled (host : Host) (link : WinPath) (linkname : Bytes)
    {ec : ErrorCode} (hec : Uncanceled ec) (log : Log) :
    Uncanceled (host.symlink (tarCreateSymlink host.encodeToNativePath) link
      linkname ec log).ec := by
  unfold Host.symlink tarCreateSymlink createSymlink
  dsimp only
  split
  · exact uncanceled_system _ _
  · split
    · exact uncanceled_system _ _
    · split
      · exact uncanceled_make (by decide) _
      · exact perform_uncanceled host _ hec log

theorem extractData_uncanceled (hR : Honours R Uncanceled) {h : Header}
    {log : Log} {r r' : Reader R} {e : Extracted}
    (hrun : x.extractData h log r = some (e, r')) : Uncanceled e.ec := by
  have hcleared : Uncanceled ErrorCode.cleared :=
    uncanceled_make (by decide) _
  unfold extractData at hrun
  split at hrun
  · contradiction
  rename_i result r₁ hwrite
  unfold Reader.writeTo at hwrite
  split at hwrite <;> cases hwrite
  rename_i s hwrite
  dsimp only at hrun
  split at hrun <;> cases hrun
  · exact hcleared
  rename_i e' houtcome
  refine failure_getD ?_ hcleared
  rcases hR hwrite with ⟨e'', houtcome', hlast, -⟩ | ⟨-, hsat⟩
  · rw [houtcome] at houtcome'
    cases houtcome'
    unfold writer at hlast
    split at hlast <;> cases hlast
    · rintro _ ⟨⟩
    · exact failure_some (uncanceled_fs _)
  · exact hsat e' houtcome

theorem extractEntry_uncanceled (hR : Honours R Uncanceled)
    (hfilter : ∀ h path, x.filter h path = true) {h : Header}
    {ec : ErrorCode} (hec : Uncanceled ec) {log : Log} {r r' : Reader R}
    {e : Extracted} (hrun : x.extractEntry h ec log r = some (e, r')) :
    Uncanceled e.ec := by
  unfold extractEntry at hrun
  split at hrun
  · cases hrun
    exact uncanceled_make (by decide) _
  rw [hfilter] at hrun
  split at hrun
  · contradiction
  split at hrun
  · cases hrun
    exact perform_uncanceled x.host _ hec log
  split at hrun
  · cases hrun
    exact symlink_uncanceled x.host _ _ hec log
  split at hrun
  · cases hrun
    exact hec
  dsimp only at hrun
  split at hrun
  · cases hrun
    exact perform_uncanceled x.host _ hec log
  · exact extractData_uncanceled hR hrun

theorem finish_uncanceled {ec : ErrorCode} (hec : Uncanceled ec)
    (r : Reader R) (log : Log) : Uncanceled (finish ec r log).ec := by
  unfold finish
  split
  · exact uncanceled_make (by decide) _
  · split
    · exact hec
    · exact uncanceled_make (by decide) _

/-- If the filter accepts every entry, `ErrCanceled` is never reported. -/
theorem extract_uncanceled (hR : Honours R Uncanceled)
    (hcodes : Codes R Uncanceled) (hfilter : ∀ h path, x.filter h path = true)
    {fuel : Nat} {s : R.State} {ec : ErrorCode} (hec : Uncanceled ec)
    {r : Extracted} (hrun : x.extract R fuel s ec = some r) :
    Uncanceled r.ec := by
  have hstart := perform_uncanceled x.host
    (.createDirectories x.host.destination) hec []
  unfold extract at hrun
  dsimp only at hrun
  split at hrun
  · cases hrun
    exact hstart
  refine loop_spec (I := fun l : ExtractLoop R => Uncanceled l.ec)
    (Q := fun r => Uncanceled r.ec) ?_ hstart hrun
  intro l step hl hstep
  unfold extractBody at hstep
  split at hstep
  · contradiction
  · rename_i hnext
    cases hstep
    exact finish_uncanceled (hcodes.next_code hl hnext) _ _
  · rename_i hnext
    split at hstep
    · contradiction
    rename_i e r' hentry
    have he := extractEntry_uncanceled hR hfilter (hcodes.next_code hl hnext)
      hentry
    split at hstep
    · cases hstep
      exact he
    split at hstep
    · rename_i hcanceled
      exact absurd hcanceled he
    split at hstep <;> cases hstep
    · exact finish_uncanceled he _ _
    · exact he

end Extractor

end Baulk.Tar
