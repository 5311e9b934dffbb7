import Baulk.Zip.DecompressCrc
import Baulk.Zip.Reader

/-!
# Moving a zip reader

A move copies every member of the reader but its base offset, which the
destination keeps.  The destination therefore looks for the local headers at
other places than the source did.  `moveFrom_sameReader` says when nobody can
tell.
-/

namespace Baulk.Zip

namespace Reader

/-- The two readers cannot be told apart through their interface. -/
structure SameReader (codecs : Codecs) (r r' : Reader) : Prop where
  files : r.files = r'.files
  comment : r.comment = r'.comment
  uncompressedSize : r.uncompressedSize = r'.uncompressedSize
  compressedSize : r.compressedSize = r'.compressedSize
  decompress : ∀ fault writer fuel, ∀ file ∈ r'.files,
    (r.decompress codecs fault writer file fuel).map Outcome.result =
      (r'.decompress codecs fault writer file fuel).map Outcome.result
  resolveLinkName : ∀ fault fuel, ∀ file ∈ r'.files,
    r.resolveLinkName codecs fault file fuel =
      r'.resolveLinkName codecs fault file fuel

/-! ## Destinations with the same base offset -/

/-- Whatever the destination was, only its base offset is left of it. -/
theorem sameReader_moveFrom {codecs : Codecs} {dst r : Reader}
    (hdecompress : ∀ fault writer fuel, ∀ file ∈ r.files,
      (dst.moveFrom r).decompress codecs fault writer file fuel =
        r.decompress codecs fault writer file fuel) :
    SameReader codecs (dst.moveFrom r) r where
  files := rfl
  comment := rfl
  uncompressedSize := rfl
  compressedSize := rfl
  decompress := by
    intro fault writer fuel file hfile
    rw [hdecompress fault writer fuel file hfile]
  resolveLinkName := by
    intro fault fuel file hfile
    simp only [resolveLinkName, hdecompress _ _ _ file hfile]

theorem sameReader_of_baseOffset {codecs : Codecs} {dst r : Reader}
    (h : dst.baseOffset = r.baseOffset) :
    SameReader codecs (dst.moveFrom r) r := by
  apply sameReader_moveFrom
  intro fault writer fuel file hfile
  simp only [decompress, moveFrom, h]

theorem sameReader_of_files {codecs : Codecs} {dst r : Reader}
    (h : r.files = []) : SameReader codecs (dst.moveFrom r) r := by
  apply sameReader_moveFrom
  intro fault writer fuel file hfile
  rw [h] at hfile
  contradiction

/-! ## Other destinations -/

/-- `ERROR_ACCESS_DENIED` at one call of the system. -/
def deniedAt (call n : Nat) : Option SystemError :=
  if n = call then some SystemError.accessDenied else none

def readDenied : ErrorCode := ErrorCode.make 5 (wide "ReadFile: ")
def seekDenied : ErrorCode := ErrorCode.make 5 (wide "SetFilePointerEx(): ")
def negativeSeek : ErrorCode := ErrorCode.make 131 (wide "SetFilePointerEx(): ")

theorem decompress_of_openEntry {r : Reader} {content : FileBytes}
    {codecs : Codecs} {fault : Nat → Option SystemError}
    {writer : List Bytes → Bool} {file : File} {ec : ErrorCode}
    (hfd : r.fd = some content) (fuel : Nat)
    (h : openEntry ⟨content, fault, writer⟩ r.baseOffset file = .error ec) :
    (r.decompress codecs fault writer file fuel).map Outcome.result =
      some ⟨false, some ec, []⟩ := by
  simp only [decompress, hfd, Zip.decompress, h]
  rfl

/-- When the local header cannot be read, the error says whether its offset was
negative. -/
theorem openEntry_deniedAt_one (content : FileBytes)
    (writer : List Bytes → Bool) (baseOffset : UInt64) (file : File) :
    openEntry ⟨content, deniedAt 1, writer⟩ baseOffset file =
      .error
        (if 2 ^ 63 ≤ (file.position + baseOffset).toNat then negativeSeek
          else readDenied) := by
  by_cases h : 2 ^ 63 ≤ (file.position + baseOffset).toNat
  · simp only [openEntry, seek, deniedAt]
    rw [if_pos h, if_pos h]
    rfl
  · simp only [openEntry, seek, deniedAt]
    rw [if_neg h, if_neg h]
    rfl

def LocalHeaderAt (content : FileBytes) (offset : UInt64) : Prop :=
  offset.toNat < 2 ^ 63 ∧ offset.toNat + fileHeaderLen ≤ content.bytes.length ∧
    leValue ((content.bytes.drop offset.toNat).take 4) = fileHeaderSignature

/-- The second call of the system reads the local header; a third one that is
needed for it is denied. -/
theorem readHeader_deniedAt_two (content : FileBytes)
    (writer : List Bytes → Bool) (pos : Nat) :
    let env : Env := ⟨content, deniedAt 2, writer⟩
    let header := (content.bytes.drop pos).take fileHeaderLen
    if header.length = fileHeaderLen then
      ∃ s, Session.readFull env fileHeaderLen ⟨pos, 1, []⟩ =
        (.ok header, s) ∧ s.calls = 2
    else
      ∃ ec s, Session.readFull env fileHeaderLen ⟨pos, 1, []⟩ =
        (.error ec, s) ∧ ec ≠ seekDenied := by
  intro env header
  have hfirst : Session.readFile env fileHeaderLen ⟨pos, 1, []⟩ =
      (.ok header, ⟨pos + header.length, 2, [.read pos header]⟩) := rfl
  have hsecond : ∀ n, Session.readFile env n
      ⟨pos + header.length, 2, [.read pos header]⟩ =
        (.error ⟨5, by decide, by decide⟩,
          ⟨pos + header.length, 3, [.read pos header]⟩) := fun _ => rfl
  simp only [Session.readFull, Session.readUpTo, hfirst]
  split
  · rename_i hfull
    refine ⟨⟨pos + header.length, 2, [.read pos header]⟩, ?_, rfl⟩
    simp [fileHeaderLen, hfull]
  · rename_i hshort
    by_cases hempty : header.length = 0
    · refine ⟨Session.endOfFile, ⟨pos + header.length, 2, [.read pos header]⟩,
        ?_, by decide⟩
      simp [fileHeaderLen, hempty]
    · refine ⟨readDenied, ⟨pos + header.length, 3, [.read pos header]⟩, ?_,
        by decide⟩
      simp only [hempty, hshort, or_self, hsecond, if_false]
      rfl

/-- When the data of an entry cannot be reached, the error says whether its
local header was found. -/
theorem openEntry_deniedAt_two (content : FileBytes)
    (writer : List Bytes → Bool) (baseOffset : UInt64) (file : File) :
    ∃ ec, openEntry ⟨content, deniedAt 2, writer⟩ baseOffset file =
        .error ec ∧
      (ec = seekDenied ↔
        LocalHeaderAt content (file.position + baseOffset)) := by
  simp only [openEntry]
  generalize file.position + baseOffset = offset
  by_cases hneg : 2 ^ 63 ≤ offset.toNat
  · have hseek : seek ⟨content, deniedAt 2, writer⟩ offset ⟨0, 0, []⟩ =
        .error negativeSeek := by
      simp only [seek, deniedAt]
      rw [if_pos hneg]
      rfl
    refine ⟨negativeSeek, by rw [hseek], ?_⟩
    simp only [LocalHeaderAt, not_lt.mpr hneg, false_and, iff_false]
    decide
  have hseek : seek ⟨content, deniedAt 2, writer⟩ offset ⟨0, 0, []⟩ =
      .ok ⟨offset.toNat, 1, []⟩ := by
    simp only [seek, deniedAt]
    rw [if_neg hneg]
    rfl
  have hread := readHeader_deniedAt_two content writer offset.toNat
  dsimp only at hread
  have hlength : ((content.bytes.drop offset.toNat).take
      fileHeaderLen).length = fileHeaderLen ↔
        offset.toNat + fileHeaderLen ≤ content.bytes.length := by
    rw [List.length_take, List.length_drop, fileHeaderLen]
    omega
  rw [hseek]
  dsimp only
  split at hread
  · rename_i hfull
    obtain ⟨s, hs, hcalls⟩ := hread
    rw [hs]
    dsimp only
    have hsig : (((content.bytes.drop offset.toNat).take
        fileHeaderLen).take 4) = (content.bytes.drop offset.toNat).take 4 := by
      rw [List.take_take]
      rfl
    have hdenied : ∀ position, seek ⟨content, deniedAt 2, writer⟩ position s =
        .error seekDenied := by
      intro position
      simp only [seek, hcalls]
      rfl
    simp only [dataOffset, hsig]
    split
    · rename_i hnone
      split at hnone
      · refine ⟨_, rfl, ?_⟩
        simp only [LocalHeaderAt]
        rename_i hother
        simp only [hother, and_false, iff_false]
        decide
      · contradiction
    · rename_i position hsome
      split at hsome
      · contradiction
      · rename_i hsame
        rw [hdenied]
        exact ⟨_, rfl, fun _ => ⟨not_le.mp hneg, hlength.mp hfull,
          not_not.mp hsame⟩, fun _ => rfl⟩
  · rename_i hshort
    obtain ⟨ec, s, hs, hec⟩ := hread
    rw [hs]
    refine ⟨ec, rfl, fun h => absurd h hec, fun h => ?_⟩
    exact absurd (hlength.mpr h.2.1) hshort

/-- A base offset at which the offset of a local header is negative where it
was not, or the other way round. -/
def otherBaseOffset (position baseOffset : UInt64) : UInt64 :=
  if 2 ^ 63 ≤ (position + baseOffset).toNat then 0 - position
  else 0x8000000000000000 - position

theorem otherBaseOffset_spec (position baseOffset : UInt64) :
    2 ^ 63 ≤ (position + otherBaseOffset position baseOffset).toNat ↔
      ¬ 2 ^ 63 ≤ (position + baseOffset).toNat := by
  unfold otherBaseOffset
  split
  · rename_i h
    have hzero : position + (0 - position) = 0 := by grind
    rw [hzero]
    exact ⟨fun h => absurd h (by decide), fun hnot => absurd h hnot⟩
  · rename_i h
    have htop : position + (0x8000000000000000 - position) =
        0x8000000000000000 := by grind
    rw [htop]
    exact ⟨fun _ => h, fun _ => by decide⟩

/-! ## Every destination -/

theorem openReader_fd {fault : Nat → Option SystemError} {heap : Heap}
    {content : FileBytes} {size : Option Nat} {offset : UInt64} {fuel : Nat}
    {r : Reader}
    (h : openReader fault heap content size offset fuel {} = some (.ok r)) :
    r.fd = some content ∧ r.baseOffset = offset := by
  simp only [openReader, Option.isSome_none, Bool.false_eq_true,
    if_false] at h
  split at h
  · obtain ⟨_, _, _, _, _, -, -, -, -, rfl⟩ := initializeReader_ok h
    exact ⟨rfl, rfl⟩
  · split at h
    · cases h
    · obtain ⟨_, _, _, _, _, -, -, -, -, rfl⟩ := initializeReader_ok h
      exact ⟨rfl, rfl⟩

theorem newReader_of_openReader {fault : Nat → Option SystemError}
    {heap : Heap} {content : FileBytes} {size : Option Nat} {offset : UInt64}
    {fuel : Nat} {r : Reader}
    (h : openReader fault heap content size offset fuel {} = some (.ok r)) :
    newReader fault heap content size offset fuel =
      some (.ok (moveFrom {} r)) := by
  simp only [newReader, h]

theorem exists_not_sameReader (codecs : Codecs) {r : Reader}
    {content : FileBytes} (hfd : r.fd = some content) {file : File}
    (hfile : file ∈ r.files) :
    ∃ dst : Reader, ¬ SameReader codecs (dst.moveFrom r) r := by
  let base := otherBaseOffset file.position r.baseOffset
  refine ⟨{ baseOffset := base }, fun hsame => ?_⟩
  have hresult := hsame.decompress (deniedAt 1) (fun _ => true) 0 file hfile
  rw [decompress_of_openEntry (r := moveFrom { baseOffset := base } r) hfd 0
      (openEntry_deniedAt_one content _ base file),
    decompress_of_openEntry hfd 0
      (openEntry_deniedAt_one content _ r.baseOffset file)] at hresult
  have hspec : 2 ^ 63 ≤ (file.position + base).toNat ↔ _ :=
    otherBaseOffset_spec file.position r.baseOffset
  by_cases h : 2 ^ 63 ≤ (file.position + r.baseOffset).toNat
  · rw [if_pos h, if_neg (fun hb => hspec.mp hb h)] at hresult
    revert hresult
    decide
  · rw [if_neg h, if_pos (hspec.mpr h)] at hresult
    revert hresult
    decide

/-- A destination with another base offset must find a local header wherever
the source does. -/
theorem SameReader.localHeaderAt {codecs : Codecs} {dst r : Reader}
    {content : FileBytes} (hfd : r.fd = some content)
    (hsame : SameReader codecs (dst.moveFrom r) r) {file : File}
    (hfile : file ∈ r.files)
    (h : LocalHeaderAt content (file.position + r.baseOffset)) :
    LocalHeaderAt content (file.position + dst.baseOffset) := by
  have hresult := hsame.decompress (deniedAt 2) (fun _ => true) 0 file hfile
  obtain ⟨ec, hec, hiff⟩ := openEntry_deniedAt_two content (fun _ => true)
    r.baseOffset file
  obtain ⟨ec', hec', hiff'⟩ := openEntry_deniedAt_two content (fun _ => true)
    dst.baseOffset file
  rw [decompress_of_openEntry (r := dst.moveFrom r) hfd 0 hec',
    decompress_of_openEntry hfd 0 hec] at hresult
  simp only [Option.some.injEq, Result.mk.injEq, true_and, and_true] at hresult
  rw [← hiff', hresult]
  exact hiff.mpr h

/-- A reader opened at `offset` can be moved without a visible difference to a
reader with this base offset, hence to a fresh one if the archive starts where
the file does.  With an entry it cannot be moved to every reader, and not to a
fresh one unless the local headers are also found without the offset. -/
theorem moveFrom_sameReader (codecs : Codecs)
    (fault : Nat → Option SystemError) (heap : Heap) (content : FileBytes)
    (size : Option Nat) (offset : UInt64) (fuel : Nat) (r : Reader)
    (hopen : openReader fault heap content size offset fuel {} =
      some (.ok r)) :
    ((∀ dst : Reader, SameReader codecs (dst.moveFrom r) r) ↔
        r.files = []) ∧
      (∀ dst : Reader, dst.baseOffset = offset →
        SameReader codecs (dst.moveFrom r) r) ∧
      ∃ moved, newReader fault heap content size offset fuel =
          some (.ok moved) ∧
        (offset = 0 ∨ r.files = [] → SameReader codecs moved r) ∧
        (SameReader codecs moved r → ∀ file ∈ r.files,
          LocalHeaderAt content (file.position + offset) →
            LocalHeaderAt content file.position) := by
  obtain ⟨hfd, hbase⟩ := openReader_fd hopen
  refine ⟨⟨fun hall => ?_, fun hempty dst => sameReader_of_files hempty⟩,
    fun dst hdst => sameReader_of_baseOffset (hdst.trans hbase.symm),
    moveFrom {} r, newReader_of_openReader hopen, ?_, ?_⟩
  · by_contra hfiles
    obtain ⟨file, hfile⟩ := List.exists_mem_of_ne_nil r.files hfiles
    obtain ⟨dst, hdst⟩ := exists_not_sameReader codecs hfd hfile
    exact hdst (hall dst)
  · rintro (hzero | hempty)
    · exact sameReader_of_baseOffset (hzero.symm.trans hbase.symm)
    · exact sameReader_of_files hempty
  · intro hsame file hfile hheader
    rw [← hbase] at hheader
    have hmoved := hsame.localHeaderAt hfd hfile hheader
    have hzero : file.position + ({} : Reader).baseOffset = file.position := by
      grind
    rwa [hzero] at hmoved

/-! ## A self-extracting archive -/

/-- An archive with the entry "a", which is stored. -/
def letterLocal : Bytes :=
  [0x50, 0x4b, 3, 4, 20, 0, 0, 0, 0, 0, 0, 0, 0, 0, 0x43, 0xbe, 0xb7, 0xe8,
    1, 0, 0, 0, 1, 0, 0, 0, 1, 0, 0, 0, 0x61, 0x61]

def letterDirectory : Bytes :=
  [0x50, 0x4b, 1, 2, 20, 0, 20, 0, 0, 0, 0, 0, 0, 0, 0, 0, 0x43, 0xbe, 0xb7,
    0xe8, 1, 0, 0, 0, 1, 0, 0, 0, 1, 0, 0, 0, 0, 0, 0, 0, 0, 0, 0, 0, 0, 0, 0,
    0, 0, 0, 0x61]

def letterEnd : Bytes :=
  [0x50, 0x4b, 5, 6, 0, 0, 0, 0, 1, 0, 1, 0, 47, 0, 0, 0, 32, 0, 0, 0, 0, 0]

def letterArchive : Bytes := letterLocal ++ letterDirectory ++ letterEnd

/-- The archive behind a stub of one byte. -/
def stubbedLetter : FileBytes := ⟨0x4d :: letterArchive, by decide⟩

def zeroHeap : Heap := ⟨fun _ => 0, fun _ => 0⟩

/-- The archive as it is opened behind the stub, at offset `1`. -/
def openLetter : Option (Except ErrorCode Reader) :=
  openReader (fun _ => none) zeroHeap stubbedLetter (some 102) 1 1 {}

/-- The results of `Decompress` for every entry, with a writer that accepts
everything. -/
def decompressAll (r : Reader) : List (Option Result) :=
  r.files.map fun file =>
    (r.decompress idleCodecs (fun _ => none) (fun _ => true) file 2).map
      Outcome.result

def opened : Option (Except ErrorCode Reader) → Option Reader
  | some (.ok r) => some r
  | _ => none

theorem eq_of_opened {x : Option (Except ErrorCode Reader)} {r : Reader}
    (h : opened x = some r) : x = some (.ok r) := by
  unfold opened at h
  split at h <;> cases h
  rfl

theorem exists_openLetter : ∃ r, openLetter = some (.ok r) ∧
    decompressAll r = [some ⟨true, none, [[0x61]]⟩] ∧
    decompressAll (moveFrom {} r) = [some ⟨false, some notValid, []⟩] := by
  have hsome : (opened openLetter).map
      (fun r => (decompressAll r, decompressAll (moveFrom {} r))) =
        some ([some ⟨true, none, [[0x61]]⟩],
          [some ⟨false, some notValid, []⟩]) := by
    decide
  cases h : opened openLetter with
  | none =>
      rw [h] at hsome
      contradiction
  | some r =>
      rw [h] at hsome
      simp only [Option.map_some, Option.some.injEq, Prod.mk.injEq] at hsome
      exact ⟨r, eq_of_opened h, hsome⟩

theorem SameReader.decompressAll_eq {r r' : Reader}
    (h : SameReader idleCodecs r r') : decompressAll r = decompressAll r' := by
  unfold decompressAll
  rw [h.files]
  exact List.map_congr_left (h.decompress _ _ _)

theorem newReader_stubbedLetter_not_sameReader :
    ∃ r moved, openReader (fun _ => none) zeroHeap stubbedLetter (some 102) 1
        1 {} = some (.ok r) ∧
      newReader (fun _ => none) zeroHeap stubbedLetter (some 102) 1 1 =
        some (.ok moved) ∧
      ¬ SameReader idleCodecs moved r := by
  obtain ⟨r, hopen, hbefore, hafter⟩ := exists_openLetter
  refine ⟨r, moveFrom {} r, hopen, newReader_of_openReader hopen, ?_⟩
  intro hsame
  have heq := hsame.decompressAll_eq
  rw [hbefore, hafter] at heq
  contradiction

/-- The archive is moved to a reader that was opened behind a stub of the same
length. -/
theorem openLetter_moveFrom_sameReader :
    ∃ r : Reader, openLetter = some (.ok r) ∧
      SameReader idleCodecs (moveFrom { baseOffset := 1 } r) r := by
  obtain ⟨r, hopen, -, -⟩ := exists_openLetter
  exact ⟨r, hopen, (moveFrom_sameReader idleCodecs _ _ _ _ _ _ r hopen).2.1
    { baseOffset := 1 } rfl⟩

end Reader

end Baulk.Zip
