import Baulk.Zip.EndRecord

/-!
# Archives behind a stub

A self-extracting archive is an archive behind a stub.  Opened with the length
of the stub as its base offset it should be the archive itself.  The end record
is searched from the end of the file, and the offsets of the directory and of
the local headers are shifted by the base offset; the offset of the zip64 end
record is not.
-/

namespace Baulk.Zip

/-! ## The end record -/

theorem lastEndRecord_append (stub b : Bytes) {bound i : Nat}
    (h : lastEndRecord b bound = some i) :
    lastEndRecord (stub ++ b) (stub.length + bound) =
      some (stub.length + i) := by
  induction bound with
  | zero => contradiction
  | succ bound ih =>
      rw [lastEndRecord] at h
      rw [← Nat.add_assoc, lastEndRecord, endRecordAt_append]
      split at h
      · rename_i hat
        cases h
        rw [if_pos hat]
      · rename_i hat
        rw [if_neg hat]
        exact ih h

/-- The search finds the last end record, whatever stands before it. -/
theorem findSignatureInBlock_append (stub b : Bytes) {i : Nat}
    (h : findSignatureInBlock b = some i) :
    findSignatureInBlock (stub ++ b) = some (stub.length + i) := by
  unfold findSignatureInBlock at h ⊢
  have hbound : (stub ++ b).length + 1 - directoryEndLen =
      stub.length + (b.length + 1 - directoryEndLen) := by
    have hpos : b.length + 1 - directoryEndLen ≠ 0 := by
      intro hzero
      rw [hzero] at h
      contradiction
    rw [List.length_append]
    omega
  rw [hbound]
  exact lastEndRecord_append stub b h

theorem searchDirectoryEnd_append {archive stubbed : FileBytes} {stub : Bytes}
    (hbytes : stubbed.bytes = stub ++ archive.bytes) {ranges : List Nat}
    {s s₁ : Session} {record : Bytes} {e : Nat}
    (h : searchDirectoryEnd (plainEnv archive) archive.bytes.length ranges s =
      (.ok (record, e), s₁)) (s' : Session) :
    ∃ s₁', searchDirectoryEnd (plainEnv stubbed) stubbed.bytes.length ranges
      s' = (.ok (record, stub.length + e), s₁') := by
  have hlength : stubbed.bytes.length = stub.length + archive.bytes.length := by
    rw [hbytes, List.length_append]
  have hdrop : ∀ n, stubbed.bytes.drop (stub.length + n) =
      archive.bytes.drop n := by
    intro n
    rw [hbytes, List.drop_append, List.drop_eq_nil_of_le (by omega),
      List.nil_append, Nat.add_sub_cancel_left]
  induction ranges generalizing s s' with
  | nil => cases h
  | cons range ranges ih =>
      generalize hblen : min range archive.bytes.length = blen at *
      generalize hblen' : min range stubbed.bytes.length = blen' at *
      obtain ⟨s₂, hround⟩ := searchBlock_plain archive range s hblen
      obtain ⟨s₂', hround'⟩ := searchBlock_plain stubbed range s' hblen'
      rw [searchDirectoryEnd, hround, hblen] at h
      rw [searchDirectoryEnd, hround', hblen']
      -- The block of the longer file ends in the block of the shorter one.
      let before := (stubbed.bytes.drop (stubbed.bytes.length - blen')).take
        (blen' - blen)
      have hbefore : before.length = blen' - blen := by
        rw [List.length_take, List.length_drop]
        omega
      have hblock : stubbed.bytes.drop (stubbed.bytes.length - blen') =
          before ++ archive.bytes.drop (archive.bytes.length - blen) := by
        rw [← hdrop, ← List.take_append_drop (blen' - blen)
          (stubbed.bytes.drop (stubbed.bytes.length - blen')), List.drop_drop]
        congr 2
        omega
      rw [hblock]
      cases hfind : findSignatureInBlock
          (archive.bytes.drop (archive.bytes.length - blen)) with
      | some p =>
          rw [hfind] at h
          cases h
          have hoffset : stubbed.bytes.length - blen' + (before.length + p) =
              stub.length + (archive.bytes.length - blen + p) := by
            omega
          rw [findSignatureInBlock_append before _ hfind]
          refine ⟨s₂', ?_⟩
          dsimp only [Option.map]
          rw [hoffset, hdrop]
      | none =>
          rw [hfind] at h
          dsimp only [Option.map] at h
          split at h
          · cases h
          · rename_i hmore
            have hranges : ranges ≠ [] := fun hnil => hmore (.inl hnil)
            have hshort : blen ≠ archive.bytes.length :=
              fun hall => hmore (.inr hall)
            have hempty : before = [] := by
              apply List.eq_nil_of_length_eq_zero
              omega
            rw [hempty, List.nil_append, hfind]
            dsimp only [Option.map]
            rw [if_neg (by rintro (hnil | hall); exacts [hranges hnil, by omega])]
            exact ih h s₂'

/-! ## The zip64 end record -/

theorem zip64Position_append (stub content : Bytes) {e : Nat}
    (h : directory64LocLen ≤ e) :
    zip64Position (stub ++ content) (stub.length + e) =
      zip64Position content e := by
  have hdrop : (stub ++ content).drop (stub.length + e - directory64LocLen) =
      content.drop (e - directory64LocLen) := by
    rw [List.drop_append, List.drop_eq_nil_of_le (by omega), List.nil_append]
    congr 1
    omega
  rw [zip64Position, zip64Position, if_neg (by omega), if_neg (by omega),
    hdrop]

theorem zip64EndAt_of_resolveZip64 {content : FileBytes} {e : Nat}
    (he : e ≤ content.bytes.length) {d d' : DirectoryEnd} {s s' : Session}
    (h : resolveZip64 (plainEnv content) e d s = (.ok d', s'))
    (hrefers : d.refersToZip64 = true)
    (hpos : 0 < zip64Position content.bytes e) :
    Zip64EndAt content.bytes
      (UInt64.ofNat (zip64Position content.bytes e).toNat).toNat := by
  obtain ⟨s₁, hfind⟩ := findDirectory64End_plain content he s
  rw [resolveZip64, if_pos hrefers, hfind] at h
  dsimp only at h
  rw [if_pos hpos, readDirectory64End] at h
  split at h
  · cases h
  · rename_i buffer s₂ hread
    split at h
    · cases h
    · rename_i hsig
      rw [readAt_ok hread] at hsig
      have htake : field (((plainEnv content).content.bytes.drop _).take
          directory64EndLen) 0 4 = _ := not_not.mp hsig
      rw [field, List.drop_zero, List.take_take] at htake
      exact htake

theorem not_zip64EndAt_succ {content : Bytes} {offset : Nat}
    (h : Zip64EndAt content offset) : ¬ Zip64EndAt content (offset + 1) := by
  intro h'
  unfold Zip64EndAt at h h'
  rw [← List.drop_drop] at h'
  -- The second byte of the first record is the first byte of the other.
  rcases hrest : content.drop offset with _ | ⟨a, _ | ⟨b, rest⟩⟩ <;>
    rw [hrest] at h h'
  · exact absurd h (by decide)
  · exact absurd (show 0 = directory64EndSignature from h') (by decide)
  · have ha := a.toNat_lt
    have hb := b.toNat_lt
    simp only [List.take_succ_cons, List.drop_succ_cons, List.drop_zero,
      leValue, List.foldr_cons, directory64EndSignature] at h h'
    omega

/-! ## The directory -/

/-- The same bytes are ahead in both files. -/
def Aligned (content content' : FileBytes) (s s' : Session) : Prop :=
  content'.bytes.drop s'.pos = content.bytes.drop s.pos

section Aligned

variable {content content' : FileBytes}

theorem Aligned.readFile {s s' : Session} (h : Aligned content content' s s')
    (n : Nat) :
    ∃ got s₁ s₁', s.readFile (plainEnv content) n = (.ok got, s₁) ∧
      s'.readFile (plainEnv content') n = (.ok got, s₁') ∧
      Aligned content content' s₁ s₁' := by
  have hgot : (content'.bytes.drop s'.pos).take n =
      (content.bytes.drop s.pos).take n := by
    rw [h]
  refine ⟨(content.bytes.drop s.pos).take n,
    (s.readFile (plainEnv content) n).2, (s'.readFile (plainEnv content') n).2,
    rfl, ?_, ?_⟩
  · rw [← hgot]
    rfl
  · change content'.bytes.drop (s'.pos +
      ((content'.bytes.drop s'.pos).take n).length) =
        content.bytes.drop (s.pos +
          ((content.bytes.drop s.pos).take n).length)
    rw [hgot, ← List.drop_drop, ← List.drop_drop, h]

/-- The results are the same and the sessions are aligned after them. -/
def SameRead {α : Type} (content content' : FileBytes)
    (x x' : Except ErrorCode α × BufioReader × Session) : Prop :=
  ∃ y br s s', x = (y, br, s) ∧ x' = (y, br, s') ∧ Aligned content content' s s'

theorem Aligned.bufioRead {s s' : Session} (h : Aligned content content' s s')
    (dest : Bytes) (br : BufioReader) :
    SameRead content content' (br.read (plainEnv content) dest s)
      (br.read (plainEnv content') dest s') := by
  unfold BufioReader.read
  split
  · exact ⟨_, _, _, _, rfl, rfl, h⟩
  split
  · split
    · obtain ⟨got, s₁, s₁', hread, hread', h₁⟩ := h.readFile dest.length
      rw [hread, hread']
      exact ⟨_, _, _, _, rfl, rfl, h₁⟩
    · obtain ⟨got, s₁, s₁', hread, hread', h₁⟩ := h.readFile bufioSize
      rw [hread, hread']
      exact ⟨_, _, _, _, rfl, rfl, h₁⟩
  · exact ⟨_, _, _, _, rfl, rfl, h⟩

theorem Aligned.bufioReadFull {s s' : Session}
    (h : Aligned content content' s s') (calls : Nat) (dest : Bytes)
    (br : BufioReader) :
    SameRead content content' (br.readFull (plainEnv content) calls dest s)
      (br.readFull (plainEnv content') calls dest s') := by
  induction calls generalizing dest br s s' with
  | zero => exact ⟨_, _, _, _, rfl, rfl, h⟩
  | succ calls ih =>
      unfold BufioReader.readFull
      split
      · exact ⟨_, _, _, _, rfl, rfl, h⟩
      obtain ⟨x, br₁, s₁, s₁', hx, hx', h₁⟩ := h.bufioRead dest br
      rw [hx, hx']
      rcases x with ec | got
      · exact ⟨_, _, _, _, rfl, rfl, h₁⟩
      obtain ⟨y, br₂, s₂, s₂', hy, hy', h₂⟩ :=
        ih h₁ (dest.drop got.length) br₁
      dsimp only
      rw [hy, hy']
      rcases y with ec | rest
      · exact ⟨_, _, _, _, rfl, rfl, h₂⟩
      · exact ⟨_, _, _, _, rfl, rfl, h₂⟩

theorem Aligned.readDirectoryHeader {s s' : Session}
    (h : Aligned content content' s s') (place : Nat → Nat) (fuel : Nat)
    (br : BufioReader) (mem : Memory) (capacity : Nat) :
    (readDirectoryHeader (plainEnv content) place fuel
          ⟨s, br, mem, capacity⟩ = none ∧
        readDirectoryHeader (plainEnv content') place fuel
          ⟨s', br, mem, capacity⟩ = none) ∨
      ∃ x s₁ s₁' br₁ mem₁ capacity₁,
        readDirectoryHeader (plainEnv content) place fuel
          ⟨s, br, mem, capacity⟩ = some (x, ⟨s₁, br₁, mem₁, capacity₁⟩) ∧
        readDirectoryHeader (plainEnv content') place fuel
          ⟨s', br, mem, capacity⟩ = some (x, ⟨s₁', br₁, mem₁, capacity₁⟩) ∧
        Aligned content content' s₁ s₁' := by
  unfold Zip.readDirectoryHeader readDirectoryHeaderWith
  dsimp only
  obtain ⟨x, br₁, s₁, s₁', hx, hx', h₁⟩ := h.bufioReadFull directoryHeaderLen
    (List.replicate directoryHeaderLen 0) br
  rw [hx, hx']
  rcases x with ec | buf
  · exact .inr ⟨_, _, _, _, _, _, rfl, rfl, h₁⟩
  dsimp only
  split
  · exact .inr ⟨_, _, _, _, _, _, rfl, rfl, h₁⟩
  generalize field buf 28 2 + field buf 30 2 + field buf 32 2 = totallen
  obtain ⟨y, br₂, s₂, s₂', hy, hy', h₂⟩ := h₁.bufioReadFull totallen
    (loadAt mem (place (max capacity totallen)) totallen) br₁
  rw [hy, hy']
  rcases y with ec | bytes
  · exact .inr ⟨_, _, _, _, _, _, rfl, rfl, h₂⟩
  dsimp only
  cases (directoryHeader buf
      (storeAt mem (place (max capacity totallen)) bytes)
      (place (max capacity totallen))).walkExtraWith Endian.Reader.subSize fuel with
  | none => exact .inl ⟨rfl, rfl⟩
  | some walk => exact .inr ⟨_, _, _, _, _, _, rfl, rfl, h₂⟩

theorem Aligned.readDirectory {s s' : Session}
    (h : Aligned content content' s s') (place : Nat → Nat) (fuel records : Nat)
    (br : BufioReader) (mem : Memory) (capacity : Nat) :
    readDirectory (plainEnv content') place fuel records
        ⟨s', br, mem, capacity⟩ =
      readDirectory (plainEnv content) place fuel records
        ⟨s, br, mem, capacity⟩ := by
  induction records generalizing s s' br mem capacity with
  | zero => rfl
  | succ records ih =>
      rw [Zip.readDirectory, Zip.readDirectory]
      obtain ⟨hnone, hnone'⟩ | ⟨x, s₁, s₁', br₁, mem₁, capacity₁, hx, hx', h₁⟩ :=
        h.readDirectoryHeader place fuel br mem capacity
      · rw [hnone, hnone']
      · rw [hx, hx']
        rcases x with ec | file
        · rfl
        · dsimp only
          rw [ih h₁]

end Aligned

/-! ## Opening behind a stub -/

open Reader

/-- `OpenReader` with the size of the file and an offset, when no call of the
system fails. -/
def openAt (heap : Heap) (fuel : Nat) (content : FileBytes) (offset : Nat) :
    Option (Except ErrorCode Reader) :=
  openReader (fun _ => none) heap content (some content.bytes.length)
    (UInt64.ofNat offset) fuel {}

/-- Opening the file at the offset gives a reader that cannot be told apart
from `r`. -/
def OpensAs (codecs : Codecs) (heap : Heap) (fuel : Nat) (content : FileBytes)
    (offset : Nat) (r : Reader) : Prop :=
  ∃ r', openAt heap fuel content offset = some (.ok r') ∧
    SameReader codecs r' r

/-- Behind a stub of `k` bytes no offset leaves the range of file offsets: the
file ends 4 GiB below their limit, and an offset of an entry that was one of
the file is one still. -/
structure FitsBehind (k : Nat) (archive : FileBytes) (files : List File) :
    Prop where
  room : k + archive.bytes.length + 2 ^ 32 ≤ 2 ^ 63
  kept : ∀ file ∈ files, file.position.toNat < 2 ^ 63 →
    file.position.toNat + k < 2 ^ 63
  bounded : ∀ file ∈ files, file.position.toNat + k < 2 ^ 64

theorem FitsBehind.position {k : Nat} {archive : FileBytes}
    {files : List File} (h : FitsBehind k archive files) {file : File}
    (hfile : file ∈ files) :
    (file.position + UInt64.ofNat k).toNat =
        (file.position + UInt64.ofNat 0).toNat + k ∧
      (2 ^ 63 ≤ (file.position + UInt64.ofNat k).toNat ↔
        2 ^ 63 ≤ (file.position + UInt64.ofNat 0).toNat) := by
  have hroom := h.room
  have hkept := h.kept file hfile
  have hbounded := h.bounded file hfile
  have hzero : (file.position + UInt64.ofNat 0).toNat =
      file.position.toNat := by
    rw [UInt64.toNat_add, UInt64.toNat_ofNat']
    omega
  have hk : (file.position + UInt64.ofNat k).toNat =
      file.position.toNat + k := by
    rw [UInt64.toNat_add, UInt64.toNat_ofNat']
    omega
  rw [hzero, hk]
  exact ⟨rfl, by omega⟩

/-- Opening is `Initialize` for the whole file. -/
theorem openAt_eq (heap : Heap) (fuel : Nat) (content : FileBytes)
    (offset : Nat) :
    openAt heap fuel content offset =
      initializeReader (plainEnv content) heap content.bytes.length fuel
        ⟨0, 0, []⟩
        { fd := some content, size := some content.bytes.length,
          baseOffset := UInt64.ofNat offset } :=
  rfl

theorem resolveLinkName_congr {codecs : Codecs} {r r' : Reader}
    {fault : Nat → Option SystemError} {file : File} {fuel : Nat}
    (h : (r'.decompress codecs fault (fun _ => true) file fuel).map
        Outcome.result =
      (r.decompress codecs fault (fun _ => true) file fuel).map
        Outcome.result) :
    r'.resolveLinkName codecs fault file fuel =
      r.resolveLinkName codecs fault file fuel := by
  unfold resolveLinkName
  split
  · rfl
  cases ho : r.decompress codecs fault (fun _ => true) file fuel <;>
    cases ho' : r'.decompress codecs fault (fun _ => true) file fuel <;>
    rw [ho, ho'] at h
  · contradiction
  · contradiction
  · simp only [Option.map_some, Option.some.injEq, Outcome.result,
      Result.mk.injEq] at h
    obtain ⟨hok, hec, hchunks⟩ := h
    simp only [hok, hec, Session.written, hchunks]

theorem parseDirectoryEnd_offset_lt (record : Bytes) :
    (parseDirectoryEnd record).directoryOffset.toNat < 2 ^ 32 := by
  have hlt : field record 16 4 < 2 ^ 32 :=
    calc field record 16 4 < 256 ^ ((record.drop 16).take 4).length :=
          leValue_lt _
      _ ≤ 256 ^ 4 := Nat.pow_le_pow_right (by decide) (List.length_take_le _ _)
      _ = 2 ^ 32 := by decide
  change (UInt64.ofNat (field record 16 4)).toNat < 2 ^ 32
  rw [UInt64.toNat_ofNat']
  omega

section Stub

variable {archive stubbed : FileBytes} {stub : Bytes}

theorem behind_of_stub (hbytes : stubbed.bytes = stub ++ archive.bytes)
    (fault : Nat → Option SystemError) (writer : List Bytes → Bool) :
    Behind stub.length ⟨archive, fault, writer⟩ ⟨stubbed, fault, writer⟩ where
  content := ⟨stub, rfl, hbytes⟩
  fault := rfl
  writer := rfl

theorem readDirectoryEnd_stubbed
    (hbytes : stubbed.bytes = stub ++ archive.bytes)
    (hzip64 : ¬UsesZip64 stubbed.bytes) {comment : Bytes} {d : DirectoryEnd}
    {s₁ : Session}
    (h : readDirectoryEnd (plainEnv archive) archive.bytes.length ⟨0, 0, []⟩ =
      (.ok (comment, d), s₁)) :
    d.directoryOffset.toNat < 2 ^ 32 ∧
      ∃ s₁', readDirectoryEnd (plainEnv stubbed) stubbed.bytes.length
        ⟨0, 0, []⟩ = (.ok (comment, d), s₁') := by
  have hlength : stubbed.bytes.length = stub.length + archive.bytes.length := by
    rw [hbytes, List.length_append]
  obtain ⟨record, e, s, hsearch, hrecord, hcomment, rfl, hresolve, hoffset,
    hsize⟩ := readDirectoryEnd_eq_ok_iff.mp h
  have he := endRecordAt_fits (searchDirectoryEnd_used (by decide) hsearch).2.found
  have hlen : directoryEndLen = 22 := rfl
  dsimp only [plainEnv] at he
  obtain ⟨s', hsearch'⟩ := searchDirectoryEnd_append hbytes hsearch ⟨0, 0, []⟩
  have hstubbed : ¬ ((parseDirectoryEnd record).refersToZip64 = true ∧
      0 < zip64Position stubbed.bytes (stub.length + e)) := by
    obtain ⟨hrecord', hused⟩ := searchDirectoryEnd_used (by decide) hsearch'
    rw [hrecord']
    exact fun h => hzip64 ((usesZip64_iff hused).mpr h)
  have harchive : ¬ ((parseDirectoryEnd record).refersToZip64 = true ∧
      0 < zip64Position archive.bytes e) := by
    rintro ⟨hrefers, hpos⟩
    have hfar : directory64LocLen ≤ e := by
      by_contra hnear
      rw [zip64Position, if_pos (by omega)] at hpos
      contradiction
    refine hstubbed ⟨hrefers, ?_⟩
    rw [hbytes, zip64Position_append stub archive.bytes hfar]
    exact hpos
  obtain ⟨s₂, hplain⟩ := resolveZip64_plain archive (by omega) harchive s
  rw [hplain, Prod.mk.injEq, Except.ok.injEq] at hresolve
  obtain ⟨rfl, -⟩ := hresolve
  obtain ⟨s₂', hplain'⟩ := resolveZip64_plain stubbed (by omega) hstubbed s'
  exact ⟨parseDirectoryEnd_offset_lt record, s₂',
    readDirectoryEnd_eq_ok_iff.mpr ⟨record, stub.length + e, s', hsearch',
      hrecord, hcomment, rfl, hplain', hoffset, by omega⟩⟩

/-- Without a zip64 end record the archive opens behind the stub as it does
without it. -/
theorem opensAs_of_not_usesZip64
    (hbytes : stubbed.bytes = stub ++ archive.bytes) (codecs : Codecs)
    {heap : Heap} {fuel : Nat} {r : Reader}
    (hopen : openAt heap fuel archive 0 = some (.ok r))
    (hfit : FitsBehind stub.length archive r.files)
    (hzip64 : ¬UsesZip64 stubbed.bytes) :
    OpensAs codecs heap fuel stubbed stub.length r := by
  have hlength : stubbed.bytes.length = stub.length + archive.bytes.length := by
    rw [hbytes, List.length_append]
  have hroom := hfit.room
  have hbase : (UInt64.ofNat stub.length).toNat = stub.length := by
    rw [UInt64.toNat_ofNat']
    omega
  rw [openAt_eq] at hopen
  obtain ⟨comment, d, s₁, s₂, files, hend, hrecords, hseek, hread, rfl⟩ :=
    initializeReader_ok hopen
  obtain ⟨hoffset, s₁', hend'⟩ := readDirectoryEnd_stubbed hbytes hzip64 hend
  have hsum : (d.directoryOffset + UInt64.ofNat stub.length).toNat =
      d.directoryOffset.toNat + stub.length := by
    rw [UInt64.toNat_add, hbase]
    omega
  obtain ⟨-, hpos⟩ := seek_ok hseek
  have hzero : d.directoryOffset + UInt64.ofNat 0 = d.directoryOffset := by
    grind
  have haligned : Aligned archive stubbed s₂
      { s₁' with
        pos := (d.directoryOffset + UInt64.ofNat stub.length).toNat
        calls := s₁'.calls + 1 } := by
    change stubbed.bytes.drop
      (d.directoryOffset + UInt64.ofNat stub.length).toNat =
        archive.bytes.drop s₂.pos
    rw [hpos, hsum, hbytes, List.drop_append,
      List.drop_eq_nil_of_le (by omega), List.nil_append, hzero,
      Nat.add_sub_cancel]
  refine ⟨{
      fd := some stubbed
      size := some stubbed.bytes.length
      baseOffset := UInt64.ofNat stub.length
      uncompressedSize := totalSize File.uncompressedSize files
      compressedSize := totalSize File.compressedSize files
      comment := comment
      files := files }, ?_, ?_⟩
  · rw [openAt_eq, initializeReader, hend']
    dsimp only
    have hmore : archive.bytes.length / fileHeaderLen ≤
        stubbed.bytes.length / fileHeaderLen :=
      Nat.div_le_div_right (by omega)
    rw [if_neg (by omega), seek_of_lt (by omega)]
    dsimp only
    rw [haligned.readDirectory, hread]
  · have hlimit : stubbed.bytes.length + 2 ^ 17 ≤ 2 ^ 63 := by omega
    have hresult : ∀ fault writer fuel, ∀ file ∈ files, _ :=
      fun fault writer fuel file hfile =>
        decompress_shift (behind_of_stub hbytes fault writer) hlimit
          (hfit.position hfile).1 (hfit.position hfile).2 codecs fuel
    exact
      { files := rfl
        comment := rfl
        uncompressedSize := rfl
        compressedSize := rfl
        decompress := hresult
        resolveLinkName := fun fault fuel file hfile =>
          resolveLinkName_congr (hresult fault _ fuel file hfile) }

/-- An archive with a zip64 end record opens only if there is one at the offset
that the locator names, counted from the start of the file. -/
theorem zip64EndAt_of_openAt {content : FileBytes} {heap : Heap}
    {fuel offset : Nat} {r : Reader}
    (hopen : openAt heap fuel content offset = some (.ok r)) {record : Bytes}
    {e : Nat} {s : Session}
    (hsearch : searchDirectoryEnd (plainEnv content) content.bytes.length
      offrange ⟨0, 0, []⟩ = (.ok (record, e), s))
    (hrefers : (parseDirectoryEnd record).refersToZip64 = true)
    (hpos : 0 < zip64Position content.bytes e) :
    Zip64EndAt content.bytes
      (UInt64.ofNat (zip64Position content.bytes e).toNat).toNat := by
  rw [openAt_eq] at hopen
  obtain ⟨comment, d, s₁, s₂, files, hend, -, -, -, -⟩ :=
    initializeReader_ok hopen
  obtain ⟨record', e', s', hsearch', -, -, -, hresolve, -, -⟩ :=
    readDirectoryEnd_eq_ok_iff.mp hend
  rw [hsearch] at hsearch'
  cases hsearch'
  have he := endRecordAt_fits (searchDirectoryEnd_used (by decide) hsearch).2.found
  dsimp only [plainEnv] at he
  exact zip64EndAt_of_resolveZip64 (by omega) hresolve hrefers hpos

/-- With a zip64 end record, a stub and the stub with one more byte are not
both harmless. -/
theorem not_opensAs_both {longer : FileBytes} {b : UInt8}
    (hbytes : longer.bytes = b :: stubbed.bytes)
    (hzip64 : UsesZip64 stubbed.bytes) {codecs : Codecs} {heap : Heap}
    {fuel offset offset' : Nat} {r : Reader}
    (h : OpensAs codecs heap fuel stubbed offset r) :
    ¬ OpensAs codecs heap fuel longer offset' r := by
  rintro ⟨r₂, hopen₂, -⟩
  obtain ⟨r₁, hopen₁, -⟩ := h
  have hopened := hopen₁
  rw [openAt_eq] at hopened
  obtain ⟨comment, d, s₁, s₂, files, hend, -, -, -, -⟩ :=
    initializeReader_ok hopened
  obtain ⟨record, e, s, hsearch, -, -, -, -, -, -⟩ :=
    readDirectoryEnd_eq_ok_iff.mp hend
  obtain ⟨rfl, hused⟩ := searchDirectoryEnd_used (by decide) hsearch
  obtain ⟨hrefers, hpos⟩ := (usesZip64_iff hused).mp hzip64
  dsimp only [plainEnv] at hpos
  have hfar : directory64LocLen ≤ e := by
    by_contra hnear
    rw [zip64Position, if_pos (by omega)] at hpos
    contradiction
  have hlonger : longer.bytes = [b] ++ stubbed.bytes := hbytes
  obtain ⟨s', hsearch'⟩ := searchDirectoryEnd_append hlonger hsearch ⟨0, 0, []⟩
  have hsame : zip64Position longer.bytes ([b].length + e) =
      zip64Position stubbed.bytes e := by
    rw [hlonger, zip64Position_append _ _ hfar]
  have hat := zip64EndAt_of_openAt hopen₁ hsearch hrefers hpos
  have hat' := zip64EndAt_of_openAt hopen₂ hsearch' hrefers
    (by rw [hsame]; exact hpos)
  rw [hsame] at hat'
  obtain ⟨p, hp⟩ : ∃ p,
      (UInt64.ofNat (zip64Position stubbed.bytes e).toNat).toNat = p + 1 := by
    have hlt := zip64Position_lt stubbed.bytes e
    refine ⟨(zip64Position stubbed.bytes e).toNat - 1, ?_⟩
    rw [UInt64.toNat_ofNat']
    omega
  rw [hp] at hat hat'
  rw [hbytes] at hat'
  exact not_zip64EndAt_succ hat' hat

end Stub

/-- An archive that opens by itself opens behind a stub as the same archive if
its end record does not lead to a zip64 end record; otherwise it does not open
as the same behind the stub, or behind the stub with one more byte. -/
theorem openAt_stubbed (codecs : Codecs) (heap : Heap) (fuel : Nat)
    (archive stubbed : FileBytes) (stub : Bytes) (r : Reader)
    (hbytes : stubbed.bytes = stub ++ archive.bytes)
    (hopen : openAt heap fuel archive 0 = some (.ok r))
    (hfit : FitsBehind stub.length archive r.files) :
    (¬UsesZip64 stubbed.bytes →
        OpensAs codecs heap fuel stubbed stub.length r) ∧
      (UsesZip64 stubbed.bytes → ∀ (b : UInt8) (longer : FileBytes),
        longer.bytes = b :: stubbed.bytes →
          ¬ (OpensAs codecs heap fuel stubbed stub.length r ∧
            OpensAs codecs heap fuel longer (stub.length + 1) r)) :=
  ⟨opensAs_of_not_usesZip64 hbytes codecs hopen hfit,
    fun hzip64 _ _ hlonger h => not_opensAs_both hlonger hzip64 h.1 h.2⟩

/-- The archive without its stub. -/
def letterFile : FileBytes := ⟨letterArchive, by decide⟩

theorem usedRecord_stubbedLetter : UsedRecord stubbedLetter.bytes 80 where
  found := by decide
  last i hi := by
    rw [Bool.eq_false_iff]
    intro hat
    have hfits := endRecordAt_fits hat
    have hlength : stubbedLetter.bytes.length = 102 := rfl
    have hlen : directoryEndLen = 22 := rfl
    omega
  near := by decide

theorem letterFile_opensAs_stubbed : ∃ r,
    openAt zeroHeap 1 letterFile 0 = some (.ok r) ∧ r.files.length = 1 ∧
      OpensAs idleCodecs zeroHeap 1 stubbedLetter 1 r := by
  have hsome : (opened (openAt zeroHeap 1 letterFile 0)).map
      (fun r => r.files.map (·.position)) = some [0] := by
    decide
  cases h : opened (openAt zeroHeap 1 letterFile 0) with
  | none =>
      rw [h] at hsome
      contradiction
  | some r =>
      rw [h, Option.map_some, Option.some.injEq] at hsome
      have hposition : ∀ file ∈ r.files, file.position = 0 := by
        intro file hfile
        have hmem := List.mem_map_of_mem (f := (·.position)) hfile
        rw [hsome] at hmem
        exact List.mem_singleton.mp hmem
      refine ⟨r, eq_of_opened h, ?_, ?_⟩
      · have hlength := congrArg List.length hsome
        simpa using hlength
      · refine (openAt_stubbed idleCodecs zeroHeap 1 letterFile stubbedLetter
          [0x4d] r rfl (eq_of_opened h) ⟨by decide, ?_, ?_⟩).1
          (fun hzip64 => absurd ((usesZip64_iff usedRecord_stubbedLetter).mp hzip64).1
            (by decide))
        · intro file hfile _
          rw [hposition file hfile]
          decide
        · intro file hfile
          rw [hposition file hfile]
          decide

/-! ## A zip64 archive -/

/-- The archive of `letterFile` with a zip64 end record and its locator. -/
def zip64Letter : Bytes :=
  letterLocal ++ letterDirectory ++
    [0x50, 0x4b, 6, 6, 44, 0, 0, 0, 0, 0, 0, 0, 45, 0, 45, 0, 0, 0, 0, 0, 0, 0,
      0, 0, 1, 0, 0, 0, 0, 0, 0, 0, 1, 0, 0, 0, 0, 0, 0, 0, 47, 0, 0, 0, 0, 0,
      0, 0, 32, 0, 0, 0, 0, 0, 0, 0] ++
    [0x50, 0x4b, 6, 7, 0, 0, 0, 0, 79, 0, 0, 0, 0, 0, 0, 0, 1, 0, 0, 0] ++
    [0x50, 0x4b, 5, 6, 0, 0, 0, 0, 0xff, 0xff, 0xff, 0xff, 0xff, 0xff, 0xff,
      0xff, 0xff, 0xff, 0xff, 0xff, 0, 0]

def zip64LetterFile : FileBytes := ⟨zip64Letter, by decide +kernel⟩

def stubbedZip64Letter : FileBytes :=
  ⟨0x4d :: zip64Letter, by decide +kernel⟩

theorem stubbedZip64Letter_not_opensAs : ∃ r,
    openAt zeroHeap 1 zip64LetterFile 0 = some (.ok r) ∧
      decompressAll r = [some ⟨true, none, [[0x61]]⟩] ∧
      ¬ OpensAs idleCodecs zeroHeap 1 stubbedZip64Letter 1 r := by
  have hsome : (opened (openAt zeroHeap 1 zip64LetterFile 0)).map
      decompressAll = some [some ⟨true, none, [[0x61]]⟩] := by
    decide +kernel
  have hnone : (opened (openAt zeroHeap 1 stubbedZip64Letter 1)).isNone := by
    decide +kernel
  cases h : opened (openAt zeroHeap 1 zip64LetterFile 0) with
  | none =>
      rw [h] at hsome
      contradiction
  | some r =>
      rw [h, Option.map_some, Option.some.injEq] at hsome
      refine ⟨r, eq_of_opened h, hsome, ?_⟩
      rintro ⟨r', hopen, -⟩
      simp only [hopen, opened, Option.isNone_some, Bool.false_eq_true] at hnone

end Baulk.Zip
