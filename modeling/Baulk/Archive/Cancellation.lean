import Baulk.Tar.Cancellation
import Baulk.Tar.View
import Baulk.Zip.Refusal

/-!
# Canceling an extraction

The progress callback of both extractors can cancel the extraction.  A zip
archive whose entry is compressed heeds it.  The branch for stored entries and
all readers of tar archives lose the reason on the way.
-/

namespace Baulk.Archive

/-- What is expected when the callback refuses a chunk: `Extract` returns false
with `ErrCanceled`, and comes to no other entry. -/
def CancelContract (host : Host) (r : Extracted) : Prop :=
  ∀ before n after, r.log = before ++ .report n :: after →
    host.Refuses (before ++ [.report n]) →
    r.ok = false ∧ r.ec.code = ErrorCode.errCanceled ∧
      ∀ i, Action.entry i ∉ after

/-- In a zip archive, the contract is met if each refused chunk belongs to an
entry that is not stored.  In a tar archive it is not met when a chunk is
refused, unless the filter rejects a later entry while errors are ignored.

A zip archive whose Deflate64 decoder leaves at a refusal is never stuck by one:
`Extract` returns for every callback if the methods of all entries return when nothing
is refused.  Whether they do or not, it returns with `ErrCanceled` if it comes to an
entry, not stored, to which the callback makes any difference. -/
theorem extract_cancellation (x : Zip.Extractor) (y : Tar.Extractor)
    (stream : Tar.Stream) (libs : Tar.Libraries) (file : Tar.SourceFile)
    (fuel : Nat) (s : (stream.reader libs file fuel).State) (ec : ErrorCode)
    (r : Extracted) :
    (x.extract fuel ec = some r →
      (∀ before n after, r.log = before ++ .report n :: after →
        x.host.Refuses (before ++ [.report n]) →
        ∃ i entry, Log.current before = some i ∧ x.files[i]? = some entry ∧
          entry.method ≠ Zip.zipStore) →
      CancelContract x.host r) ∧
    (x.codecs.deflate64.Heeds →
      (∀ i entry, x.files[i]? = some entry →
        ∃ o, x.decompress (fun _ => true) i entry fuel = some o) →
      ∃ r, x.extract fuel ec = some r) ∧
    (x.codecs.deflate64.Heeds →
      ∀ i entry ec' log, x.ComesTo fuel ec i ec' log → x.files[i]? = some entry →
        entry.method ≠ Zip.zipStore →
        x.extractEntry fuel i entry ec' log ≠
          x.uncanceled.extractEntry fuel i entry ec' log →
        ∃ r, x.extract fuel ec = some r ∧ r.ok = false ∧
          r.ec.code = ErrorCode.errCanceled ∧ Log.current r.log = some i) ∧
    (y.extract (stream.reader libs file fuel) fuel s ec = some r →
      ec.code ≠ ErrorCode.errCanceled →
      y.host.options.ignoreError = false ∨
        (∀ h path, y.filter h path = true) →
      (CancelContract y.host r ↔ y.host.AcceptsAll r.log)) := by
  refine ⟨?_, ?_, ?_, ?_⟩
  · intro hrun hentries before n after hlog hrefuses
    obtain ⟨i, entry, hcurrent, hentry, hmethod⟩ :=
      hentries before n after hlog hrefuses
    exact Zip.Extractor.extract_canceled hrun hlog hrefuses hcurrent hentry
      hmethod
  · intro hheeds hfiles
    exact Zip.Extractor.extract_returns hheeds hfiles ec
  · intro hheeds i entry ec' log hcomes hentry hmethod hne
    exact hcomes.extract_of_ne hheeds hentry hmethod hne
  · intro hrun hec hgoes
    constructor
    · intro hcontract before n after hlog hrefuses
      obtain ⟨hfailed, hcode, -⟩ := hcontract before n after hlog hrefuses
      rcases hgoes with hignore | hfilter
      · rcases Tar.Extractor.extract_refused stream.honours hignore hrun with
          haccepts | hok
        · exact haccepts before n after hlog hrefuses
        · rw [hfailed] at hok
          contradiction
      · exact Tar.Extractor.extract_uncanceled stream.honours stream.codes
          hfilter hec hrun hcode
    · intro haccepts before n after hlog hrefuses
      exact absurd hrefuses (haccepts before n after hlog)

/-- The extraction of a single entry of one byte into `C:\d`, canceled at its
only chunk. -/
def canceledLetter (method : UInt16) : Zip.Extractor where
  content := Zip.bareFile 0 [0x61] (by decide)
  fault _ _ := none
  codecs := { Zip.idleCodecs with
    deflate := ⟨0, fun _ => [], Tar.copyCodec 1⟩ }
  baseOffset := 0
  files := [{ Zip.oneByteEntry method with name := narrow "a", crc32Value := 0 }]
  filter _ _ := true
  host :=
    { destination := WinPath.ofText (wide "C:\\d")
      options := {}
      encodeToNativePath := fun _ name => name.map UInt8.toUInt16
      disk := fun _ => none
      symlinks := fun _ =>
        ⟨⟨WinPath.ofText (wide "C:\\"), fun _ => WinPath.ofText []⟩,
          none, none⟩
      progress := fun _ => false }

/-- The calls of this extraction. -/
def canceledLog : Log :=
  [.createDirectories (WinPath.ofText (wide "C:\\d")), .entry 0,
    .newFile ((WinPath.ofText (wide "C:\\d")).append
      (WinPath.ofText (wide "a"))) 0 true, .report 1]

/-- The same surroundings for a tar archive. -/
def idleTar : Tar.Extractor where
  rt := Tar.plainRuntime
  filter _ _ := true
  host := (canceledLetter Zip.zipDeflate).host

theorem report_of_canceledLog {before after : Log} {n : Nat}
    (h : canceledLog = before ++ .report n :: after) :
    Log.current before = some 0 := by
  rcases before with _ | ⟨a, _ | ⟨b, _ | ⟨c, before⟩⟩⟩
  · cases h
  · cases h
  · cases h
  · simp only [canceledLog, List.cons_append, List.cons.injEq] at h
    obtain ⟨rfl, rfl, rfl, hrest⟩ := h
    cases before with
    | nil => rfl
    | cons d before => simp at hrest

def canceledResult : Extracted :=
  ⟨false, ErrorCode.make ErrorCode.errCanceled (wide "canceled"), canceledLog⟩

/-- A deflated entry of one byte is canceled.  It is decompressed to its end when nothing
is refused, and the callback makes a difference to it. -/
theorem deflatedLetter_canceled :
    (canceledLetter Zip.zipDeflate).extract 4 {} = some canceledResult ∧
      CancelContract (canceledLetter Zip.zipDeflate).host canceledResult ∧
      (∃ r, (canceledLetter Zip.zipDeflate).extract 4 {} = some r) ∧
      ∃ r, (canceledLetter Zip.zipDeflate).extract 4 {} = some r ∧ r.ok = false ∧
        r.ec.code = ErrorCode.errCanceled ∧ Log.current r.log = some 0 := by
  let x := canceledLetter Zip.zipDeflate
  have hrun : x.extract 4 {} = some canceledResult := rfl
  have hheeds : x.codecs.deflate64.Heeds := by
    intro state chunk continue' hrequest
    cases hrequest
  obtain ⟨hcontract, hreturns, hcanceled, -⟩ := extract_cancellation x idleTar .plain
    Tar.copyLibraries Tar.letterFile 4 ⟨0, 0⟩ {} canceledResult
  refine ⟨hrun, hcontract hrun ?_, hreturns hheeds ?_,
    hcanceled hheeds 0 _ _ _ (.first rfl) rfl (by decide) ?_⟩
  · intro before n after hlog _
    exact ⟨0, _, report_of_canceledLog hlog, rfl, by decide⟩
  · intro i entry hentry
    cases i with
    | zero =>
        obtain rfl := Option.some.inj hentry
        exact ⟨_, rfl⟩
    | succ i => cases hentry
  · -- Without the callback the entry is written.
    intro hsame
    have hok := congrArg (Option.map Extracted.ok) hsame
    exact absurd hok (by decide)

/-- A stored entry of one byte is not: the error code stays empty. -/
theorem storedLetter_not_canceled :
    ¬∀ (x : Zip.Extractor) (fuel : Nat) (ec : ErrorCode) (r : Extracted),
      x.extract fuel ec = some r → CancelContract x.host r := by
  intro hall
  have hrun : (canceledLetter Zip.zipStore).extract 4 {} =
      some ⟨false, {}, canceledLog⟩ := rfl
  obtain ⟨-, hcode, -⟩ := hall _ 4 {} _ hrun (canceledLog.take 3) 1 [] rfl rfl
  revert hcode
  decide

end Baulk.Archive
