import Baulk.Zip.Opening
import Mathlib.Algebra.Group.Action.Defs
import Mathlib.Algebra.Order.BigOperators.Group.List

/-!
# Opening an archive

An archive is opened back to its entries, to its comment and to the sums of the
sizes.  The texts are cut at their first NUL, the count in the end record has 16
bits, and behind the end record there must be nothing that looks like another
one.
-/

namespace Baulk.Zip

/-! ## Totals -/

theorem toInt_sum_ofNat {ns : List Nat} (h : ns.sum < 2 ^ 63) :
    (ns.map fun n => (UInt64.ofNat n).toInt64).sum.toInt = ns.sum := by
  induction ns with
  | nil => rfl
  | cons n ns ih =>
      rw [List.sum_cons] at h
      have hsum := ih (by omega)
      have hn : (UInt64.ofNat n).toInt64.toInt = n := by
        have hnat : (UInt64.ofNat n).toBitVec.toNat = n :=
          UInt64.toNat_ofNat_of_lt' (by change _ < 2 ^ 64; omega)
        have hint := BitVec.toInt_eq_toNat_of_lt
          (x := (UInt64.ofNat n).toBitVec) (by omega)
        rw [hnat] at hint
        exact hint
      rw [List.map_cons, List.sum_cons, Int64.toInt_add, hsum, hn,
        Int.bmod_eq_of_le (by omega) (by omega), List.sum_cons]
      omega

/-- The sizes of so few entries have a sum that does not overflow. -/
theorem toInt_totalSize {size : File → UInt64} {width : Entry → UInt32}
    (hsize : ∀ (e : Entry) position,
      size (e.file position) = UInt64.ofNat (width e).toNat)
    {ps : List (Nat × Entry)} (hfew : ps.length ≤ 2 ^ 16) :
    (Reader.totalSize size (ps.map fun p => p.2.file p.1)).toInt =
      (ps.map fun p => (width p.2).toNat).sum := by
  have hle : (ps.map fun p => (width p.2).toNat).sum ≤ 2 ^ 16 * 2 ^ 32 :=
    calc (ps.map fun p => (width p.2).toNat).sum
        ≤ (ps.map fun p => (width p.2).toNat).length • 2 ^ 32 := by
          apply List.sum_le_card_nsmul
          intro n hn
          obtain ⟨p, -, rfl⟩ := List.mem_map.mp hn
          exact (width p.2).toNat_lt.le
      _ ≤ 2 ^ 16 * 2 ^ 32 := by
          rw [List.length_map, smul_eq_mul]
          exact Nat.mul_le_mul_right _ hfew
  rw [← toInt_sum_ofNat (by omega), Reader.totalSize, List.map_map,
    List.map_map]
  congr 2
  exact List.map_congr_left fun p _ => congrArg UInt64.toInt64 (hsize _ _)

/-! ## Opening -/

/-- The reader shows these entries, each with its offset, and this comment. -/
structure Reader.Shows (r : Reader) (ps : List (Nat × Entry))
    (comment : Bytes) : Prop where
  files : r.files = ps.map fun p => p.2.file p.1
  comment : r.comment = comment
  uncompressedSize : r.uncompressedSize.toInt =
    (ps.map fun p => p.2.uncompressedSize.toNat).sum
  compressedSize : r.compressedSize.toInt =
    (ps.map fun p => p.2.compressedSize.toNat).sum

/-- The file is the archive of these entries with this comment. -/
structure IsArchive (content : FileBytes) (es : List Entry) (comment : Bytes) :
    Prop where
  bytes : content.bytes = archive es comment
  comment_lt : comment.length < 2 ^ 16
  offset_lt : (localArea es).length < 0xFFFFFFFF

/-- What the last end record of a file says is what is read of it, unless it
leads to a zip64 end record. -/
theorem readDirectoryEnd_last {content : FileBytes} {e : Nat}
    (hat : endRecordAt content.bytes e = true)
    (hlast : ∀ i, e < i → endRecordAt content.bytes i = false)
    (hnear : content.bytes.length ≤ e + 65 * 1024)
    (hzip64 : (parseDirectoryEnd (content.bytes.drop e)).refersToZip64 = true →
      zip64Position content.bytes e ≤ 0) (s : Session) :
    ∃ s', readDirectoryEnd (plainEnv content) content.bytes.length s =
      (.ok (Entry.cstring ((content.bytes.drop (e + directoryEndLen)).take
          (field (content.bytes.drop e) 20 2)),
        parseDirectoryEnd (content.bytes.drop e)), s') := by
  have hroom := endRecordAt_fits hat
  obtain ⟨s₁, hsearch⟩ := searchDirectoryEnd_last hat hlast offrange
    ⟨65 * 1024, by decide, hnear⟩ s
  obtain ⟨s₂, hresolve⟩ := resolveZip64_plain content (e := e) (by omega)
    (fun h => absurd h.2 (not_lt.mpr (hzip64 h.1))) s₁
  have hoffset := parseDirectoryEnd_offset_lt (content.bytes.drop e)
  refine ⟨s₂, readDirectoryEnd_eq_ok_iff.mpr ⟨content.bytes.drop e, e, s₁,
    hsearch, ?_, ?_, ?_, hresolve, by omega, ?_⟩⟩
  · rw [List.length_drop]
    omega
  · rw [List.length_drop, List.length_drop]
    omega
  · rw [List.drop_drop]
    rfl
  · rw [directoryEndLen] at hroom
    omega

/-- Opening reads as many headers as the last end record says, from where it
says. -/
theorem openAt_of_last {content : FileBytes} {e : Nat}
    (hat : endRecordAt content.bytes e = true)
    (hlast : ∀ i, e < i → endRecordAt content.bytes i = false)
    (hnear : content.bytes.length ≤ e + 65 * 1024)
    (hzip64 : (parseDirectoryEnd (content.bytes.drop e)).refersToZip64 = true →
      zip64Position content.bytes e ≤ 0)
    {heap : Heap} {fuel records : Nat} {offset : UInt64} {files : List File}
    (hrecords : (parseDirectoryEnd
      (content.bytes.drop e)).directoryRecords = records)
    (hoffset : (parseDirectoryEnd
      (content.bytes.drop e)).directoryOffset = offset)
    (hpossible : records ≤ content.bytes.length / fileHeaderLen)
    (hread : ∀ s : Session, s.pos = offset.toNat →
      readDirectory (plainEnv content) heap.place fuel records
        ⟨s, {}, heap.mem, Reader.headerBufferSize⟩ = some (.ok files)) :
    ∃ r, openAt heap fuel content 0 = some (.ok r) ∧ r.files = files ∧
      r.comment = Entry.cstring ((content.bytes.drop (e + directoryEndLen)).take
        (field (content.bytes.drop e) 20 2)) ∧
      r.uncompressedSize = Reader.totalSize File.uncompressedSize files ∧
      r.compressedSize = Reader.totalSize File.compressedSize files := by
  obtain ⟨s₁, hend⟩ := readDirectoryEnd_last hat hlast hnear hzip64 ⟨0, 0, []⟩
  have hlt := parseDirectoryEnd_offset_lt (content.bytes.drop e)
  rw [hoffset] at hlt
  have hbase : offset + UInt64.ofNat 0 = offset := by
    grind
  rw [openAt_eq, Reader.initializeReader, hend]
  dsimp only
  rw [hrecords, hoffset, if_neg (not_lt.mpr hpossible), hbase,
    seek_of_lt (by omega)]
  dsimp only
  rw [hread _ rfl]
  exact ⟨_, rfl, rfl, rfl, rfl, rfl⟩

section IsArchive

variable {content : FileBytes} {es : List Entry} {comment : Bytes}

theorem IsArchive.length (h : IsArchive content es comment) :
    content.bytes.length =
      endOffset es + directoryEndLen + comment.length := by
  rw [h.bytes, length_archive]

theorem IsArchive.drop_endOffset (h : IsArchive content es comment) :
    content.bytes.drop (endOffset es) =
      layout (endFields es comment) ++ comment := by
  rw [h.bytes, Zip.drop_endOffset]

theorem IsArchive.field_record (h : IsArchive content es comment) (k : Nat)
    {width n : Nat} (hk : (endFields es comment)[k]? = some (width, n)) :
    field (content.bytes.drop (endOffset es)) (endWidths.take k).sum width =
      n % 256 ^ width := by
  rw [h.drop_endOffset]
  exact field_layout (map_fst_endFields es comment) k hk comment

theorem IsArchive.field_commentLen (h : IsArchive content es comment) :
    field (content.bytes.drop (endOffset es)) 20 2 = comment.length :=
  calc field (content.bytes.drop (endOffset es)) 20 2
      = comment.length % 256 ^ 2 := h.field_record 7 rfl
    _ = comment.length := Nat.mod_eq_of_lt h.comment_lt

theorem IsArchive.endRecordAt (h : IsArchive content es comment) :
    Zip.endRecordAt content.bytes (endOffset es) = true := by
  have hlength := h.length
  have hcomment := h.field_commentLen
  have hrecord : Zip.endRecordAt (content.bytes.drop (endOffset es)) 0 =
      true := by
    have hsig : ((content.bytes.drop (endOffset es)).drop 0).take 4 =
        [0x50, 0x4b, 0x05, 0x06] := by
      rw [h.drop_endOffset]
      rfl
    unfold Zip.endRecordAt
    rw [hsig, Bool.and_eq_true, decide_eq_true_eq]
    refine ⟨rfl, ?_⟩
    change field _ 20 2 + directoryEndLen + 0 ≤ _
    rw [hcomment, List.length_drop]
    omega
  rw [endRecordAt_drop (by omega)] at hrecord
  exact hrecord

theorem IsArchive.directoryRecords (h : IsArchive content es comment) :
    (parseDirectoryEnd (content.bytes.drop (endOffset es))).directoryRecords =
      es.length % 2 ^ 16 :=
  h.field_record 4 rfl

theorem IsArchive.directoryOffset (h : IsArchive content es comment) :
    (parseDirectoryEnd (content.bytes.drop (endOffset es))).directoryOffset =
      UInt64.ofNat (localArea es).length := by
  have hoffset := h.offset_lt
  have hfield : field (content.bytes.drop (endOffset es)) 16 4 =
      (localArea es).length % 256 ^ 4 := h.field_record 6 rfl
  unfold parseDirectoryEnd
  rw [hfield, Nat.mod_eq_of_lt (by omega)]

theorem IsArchive.comment_read (h : IsArchive content es comment) :
    (content.bytes.drop (endOffset es + directoryEndLen)).take
      (field (content.bytes.drop (endOffset es)) 20 2) = comment := by
  rw [h.field_commentLen, ← List.drop_drop, h.drop_endOffset,
    ← length_endFields es comment, List.drop_left, List.take_length]

/-- The headers of the first `n` entries are ahead of a reader that starts
where the directory does. -/
theorem IsArchive.ahead (h : IsArchive content es comment) (n : Nat)
    {s : Session} (hpos : s.pos = (localArea es).length) :
    ∃ rest, Ahead content (headers 0 (es.take n) ++ rest) {} s := by
  have hdrop : content.bytes.drop (localArea es).length =
      directory es ++ (layout (endFields es comment) ++ comment) := by
    rw [h.bytes, archive, List.append_assoc, List.drop_left]
  have hsplit : directory es = headers 0 (es.take n) ++
      headers (0 + (localArea (es.take n)).length) (es.drop n) := by
    rw [← headers_append, List.take_append_drop]
    rfl
  rw [hsplit, List.append_assoc, ← hpos] at hdrop
  have hbegins := List.prefix_refl (content.bytes.drop s.pos)
  conv at hbegins => lhs; rw [hdrop]
  exact ⟨_, List.length_replicate, Nat.zero_le _, le_rfl, hbegins⟩

/-- As many headers are read as the count in the end record tells. -/
theorem IsArchive.readDirectory (h : IsArchive content es comment)
    {s : Session} (hpos : s.pos = (localArea es).length) (place : Nat → Nat)
    (fuel : Nat) (mem : Memory) (capacity : Nat) :
    Zip.readDirectory (plainEnv content) place (fuel + 1) (es.length % 2 ^ 16)
        ⟨s, {}, mem, capacity⟩ =
      some (.ok ((placed 0 (es.take (es.length % 2 ^ 16))).map fun p =>
        p.2.cut.file p.1)) := by
  have hcount : (es.take (es.length % 2 ^ 16)).length = es.length % 2 ^ 16 := by
    rw [List.length_take]
    exact Nat.min_eq_left (Nat.mod_le _ _)
  have harea : (localArea (es.take (es.length % 2 ^ 16))).length ≤
      (localArea es).length := by
    conv_rhs => rw [← List.take_append_drop (es.length % 2 ^ 16) es]
    rw [localArea, localArea, List.flatMap_append, List.length_append]
    exact Nat.le_add_right _ _
  obtain ⟨rest, hahead⟩ := h.ahead (es.length % 2 ^ 16) hpos
  have hread := Ahead.readDirectory (d := ⟨s, {}, mem, capacity⟩)
    (fun p hp => by
      have hle := le_of_mem_placed hp
      have hoffset := h.offset_lt
      omega) hahead place fuel
  rwa [hcount] at hread

theorem IsArchive.possible (h : IsArchive content es comment) :
    es.length % 2 ^ 16 ≤ content.bytes.length / fileHeaderLen := by
  have hlength := h.length
  rw [Nat.le_div_iff_mul_le (by decide)]
  calc es.length % 2 ^ 16 * fileHeaderLen
      ≤ es.length * fileHeaderLen := Nat.mul_le_mul_right _ (Nat.mod_le _ _)
    _ ≤ (localArea es).length := length_localArea_ge es
    _ ≤ content.bytes.length := by
        rw [hlength, endOffset]
        omega

end IsArchive

/-- An archive opens as its entries in their order, as many as the count in the
end record can tell, with their texts and the comment cut at the first NUL. -/
theorem openAt_archive {content : FileBytes} {es : List Entry}
    {comment : Bytes} (h : IsArchive content es comment)
    (hlast : ∀ i, endOffset es < i → endRecordAt content.bytes i = false)
    (hzip64 : (parseDirectoryEnd
        (content.bytes.drop (endOffset es))).refersToZip64 = true →
      zip64Position content.bytes (endOffset es) ≤ 0)
    (heap : Heap) (fuel : Nat) :
    ∃ r, openAt heap (fuel + 1) content 0 = some (.ok r) ∧
      r.Shows ((placed 0 (es.take (es.length % 2 ^ 16))).map fun p =>
        (p.1, p.2.cut)) (Entry.cstring comment) := by
  have hlength := h.length
  have hcomment := h.comment_lt
  have hoffset := h.offset_lt
  have hnear : content.bytes.length ≤ endOffset es + 65 * 1024 := by
    rw [directoryEndLen] at hlength
    omega
  have hnat : (UInt64.ofNat (localArea es).length).toNat =
      (localArea es).length :=
    UInt64.toNat_ofNat_of_lt' (by change _ < 2 ^ 64; omega)
  obtain ⟨r, hopen, hfiles, hread, huncompressed, hcompressed⟩ :=
    openAt_of_last h.endRecordAt hlast hnear hzip64 h.directoryRecords
      h.directoryOffset h.possible
      (fun s hpos => h.readDirectory (hpos.trans hnat) heap.place fuel heap.mem _)
  -- The entries that are shown, with their texts cut.
  generalize hshown : (placed 0 (es.take (es.length % 2 ^ 16))).map
    (fun p => (p.1, p.2.cut)) = shown
  have hfew : shown.length ≤ 2 ^ 16 := by
    rw [← hshown, List.length_map, length_placed, List.length_take]
    have hmod := Nat.mod_lt es.length (show 0 < 2 ^ 16 by decide)
    omega
  have hcut : (placed 0 (es.take (es.length % 2 ^ 16))).map
      (fun p => p.2.cut.file p.1) = shown.map fun p => p.2.file p.1 := by
    rw [← hshown, List.map_map]
    rfl
  rw [hcut] at hfiles huncompressed hcompressed
  refine ⟨r, hopen, hfiles, hread.trans (by rw [h.comment_read]), ?_, ?_⟩
  · rw [huncompressed]
    exact toInt_totalSize (fun _ _ => rfl) hfew
  · rw [hcompressed]
    exact toInt_totalSize (fun _ _ => rfl) hfew

open Reader (zeroHeap opened eq_of_opened)

/-- An empty file without a name, a date or a comment. -/
def bareEntry : Entry where
  versionMadeby := 0
  versionNeeded := 0
  flags := 0
  method := 0
  dosTime := 0
  dosDate := 0
  crc32Value := 0
  compressedSize := 0
  uncompressedSize := 0
  internalAttrs := 0
  externalAttrs := 0
  name := []
  comment := []
  data := []
  compressed_lt := by decide
  uncompressed_lt := by decide
  name_lt := by decide
  comment_lt := by decide

/-- The entry of `letterFile`. -/
def letterEntry : Entry :=
  { bareEntry with
    versionMadeby := 20
    versionNeeded := 20
    crc32Value := 0xe8b7be43
    compressedSize := 1
    uncompressedSize := 1
    name := [0x61]
    data := [0x61]
    compressed_lt := by decide
    uncompressed_lt := by decide
    name_lt := by decide }

/-- Behind an end record without a comment there is no room for another one. -/
theorem IsArchive.last_of_nil {content : FileBytes} {es : List Entry}
    (h : IsArchive content es []) (i : Nat) (hi : endOffset es < i) :
    Zip.endRecordAt content.bytes i = false := by
  rw [Bool.eq_false_iff]
  intro hat
  have hfits := endRecordAt_fits hat
  rw [h.length, List.length_nil] at hfits
  omega

theorem isArchive_letterFile : IsArchive letterFile [letterEntry] [] where
  bytes := by decide
  comment_lt := by decide
  offset_lt := by decide

theorem openAt_archive_letter : ∃ r,
    openAt zeroHeap 1 letterFile 0 = some (.ok r) ∧
      r.Shows [(0, letterEntry.cut)] [] :=
  openAt_archive isArchive_letterFile isArchive_letterFile.last_of_nil
    (fun h => absurd h (by decide)) zeroHeap 0

/-! ## Archives that are not shown as they are -/

/-- A file with a NUL in its name. -/
def nulEntry : Entry :=
  { bareEntry with
    name := [0x61, 0, 0x62]
    name_lt := by decide }

theorem length_archive_nulEntry : (archive [nulEntry] []).length < 2 ^ 63 := by
  decide

def nulArchive : FileBytes :=
  ⟨archive [nulEntry] [], length_archive_nulEntry⟩

theorem isArchive_nulArchive : IsArchive nulArchive [nulEntry] [] where
  bytes := rfl
  comment_lt := by decide
  offset_lt := by decide

theorem nulArchive_names : ∃ r,
    openAt zeroHeap 1 nulArchive 0 = some (.ok r) ∧
      r.files.map File.name = [[0x61]] := by
  have hsome : (opened (openAt zeroHeap 1 nulArchive 0)).map
      (fun r => r.files.map File.name) = some [[0x61]] := by
    decide
  cases h : opened (openAt zeroHeap 1 nulArchive 0) with
  | none =>
      rw [h] at hsome
      contradiction
  | some r =>
      rw [h, Option.map_some, Option.some.injEq] at hsome
      exact ⟨r, eq_of_opened h, hsome⟩

theorem openAt_of_no_records {content : FileBytes} {e : Nat}
    (hat : endRecordAt content.bytes e = true)
    (hlast : ∀ i, e < i → endRecordAt content.bytes i = false)
    (hnear : content.bytes.length ≤ e + 65 * 1024)
    (hzip64 : (parseDirectoryEnd (content.bytes.drop e)).refersToZip64 = false)
    (hnone : (parseDirectoryEnd
      (content.bytes.drop e)).directoryRecords = 0) :
    ∃ r, openAt zeroHeap 1 content 0 = some (.ok r) ∧ r.files = [] := by
  have hread : ∀ s : Session, s.pos = (parseDirectoryEnd
      (content.bytes.drop e)).directoryOffset.toNat →
      readDirectory (plainEnv content) zeroHeap.place 1 0
        ⟨s, {}, zeroHeap.mem, Reader.headerBufferSize⟩ = some (.ok []) :=
    fun _ _ => rfl
  obtain ⟨r, hopen, hfiles, -⟩ := openAt_of_last hat hlast hnear
    (fun h => by rw [hzip64] at h; cases h) hnone rfl (Nat.zero_le _) hread
  exact ⟨r, hopen, hfiles⟩

theorem length_localArea_replicate (n : Nat) :
    (localArea (List.replicate n bareEntry)).length = 30 * n := by
  induction n with
  | zero => rfl
  | succ n ih =>
      rw [List.replicate_succ, length_localArea_cons, ih, length_localPart]
      change 30 + 0 + 0 + 30 * n = 30 * (n + 1)
      omega

theorem length_headers_replicate (position n : Nat) :
    (headers position (List.replicate n bareEntry)).length = 46 * n := by
  induction n generalizing position with
  | zero => rfl
  | succ n ih =>
      have hheader : (bareEntry.header position).length = 46 := by
        rw [Entry.header, List.length_append, length_headerFields]
        rfl
      have hrest := ih (position + bareEntry.localPart.length)
      rw [headers] at hrest ⊢
      rw [List.replicate_succ, placed, List.flatMap_cons, List.length_append,
        hheader, hrest]
      omega

theorem length_archive_replicate :
    (archive (List.replicate 65536 bareEntry) []).length < 2 ^ 63 := by
  rw [length_archive, endOffset, directory, length_localArea_replicate,
    length_headers_replicate, List.length_nil, directoryEndLen]
  decide

/-- An archive with one entry more than its end record can count. -/
def manyArchive : FileBytes :=
  ⟨archive (List.replicate 65536 bareEntry) [], length_archive_replicate⟩

theorem isArchive_manyArchive :
    IsArchive manyArchive (List.replicate 65536 bareEntry) [] where
  bytes := rfl
  comment_lt := by decide
  offset_lt := by
    rw [length_localArea_replicate]
    decide

theorem IsArchive.directorySize {content : FileBytes} {es : List Entry}
    {comment : Bytes} (h : IsArchive content es comment) :
    (parseDirectoryEnd (content.bytes.drop (endOffset es))).directorySize =
      (directory es).length % 2 ^ 32 :=
  h.field_record 5 rfl

theorem manyArchive_files : ∃ r,
    openAt zeroHeap 1 manyArchive 0 = some (.ok r) ∧ r.files = [] := by
  have h := isArchive_manyArchive
  have hnone := h.directoryRecords
  rw [List.length_replicate] at hnone
  refine openAt_of_no_records h.endRecordAt h.last_of_nil ?_ ?_ hnone
  · rw [h.length, directoryEndLen, List.length_nil]
    omega
  · unfold DirectoryEnd.refersToZip64
    rw [hnone, h.directorySize, h.directoryOffset, directory,
      length_headers_replicate, length_localArea_replicate]
    decide

/-- A comment whose length and first bytes are the signature of an end record.
No signature is in the comment. -/
def trailingComment : Bytes :=
  [5, 6] ++ List.replicate 19278 0

theorem length_trailingComment : trailingComment.length = 0x4b50 := by
  rw [trailingComment, List.length_append, List.length_replicate]
  rfl

theorem not_mem_trailingComment : (0x50 : UInt8) ∉ trailingComment := by
  unfold trailingComment
  rw [List.mem_append, List.mem_replicate]
  rintro (h | ⟨-, h⟩)
  · revert h
    decide
  · revert h
    decide

theorem length_archive_trailing :
    (archive [bareEntry] trailingComment).length < 2 ^ 63 := by
  rw [length_archive, length_trailingComment]
  decide

def trailingArchive : FileBytes :=
  ⟨archive [bareEntry] trailingComment, length_archive_trailing⟩

theorem isArchive_trailingArchive :
    IsArchive trailingArchive [bareEntry] trailingComment where
  bytes := rfl
  comment_lt := by
    rw [length_trailingComment]
    decide
  offset_lt := by decide

/-- The last two bytes of the end record, with the comment behind them. -/
theorem IsArchive.drop_commentLen {content : FileBytes} {es : List Entry}
    {comment : Bytes} (h : IsArchive content es comment) :
    content.bytes.drop (endOffset es + 20) =
      storeLe comment.length 2 ++ comment := by
  rw [← List.drop_drop, h.drop_endOffset]
  rfl

theorem mem_drop_of_endRecordAt {b : Bytes} {i : Nat}
    (h : endRecordAt b i = true) : (0x50 : UInt8) ∈ b.drop i := by
  unfold endRecordAt at h
  rw [Bool.and_eq_true, beq_iff_eq] at h
  apply List.mem_of_mem_take (i := 4)
  rw [h.1]
  exact List.mem_cons_self

theorem trailingArchive_files : ∃ r,
    openAt zeroHeap 1 trailingArchive 0 = some (.ok r) ∧ r.files = [] := by
  have h := isArchive_trailingArchive
  have hdrop := h.drop_commentLen
  rw [length_trailingComment] at hdrop
  have hlength := h.length
  rw [length_trailingComment, directoryEndLen] at hlength
  have hrecord : field (storeLe 0x4b50 2 ++ trailingComment) 20 2 = 0 := by
    decide
  apply openAt_of_no_records (e := endOffset [bareEntry] + 20)
  · have hat : endRecordAt (trailingArchive.bytes.drop
        (endOffset [bareEntry] + 20)) 0 = true := by
      rw [hdrop, endRecordAt, Bool.and_eq_true, decide_eq_true_eq]
      refine ⟨by decide, ?_⟩
      change field (storeLe 0x4b50 2 ++ trailingComment) 20 2 + 22 + 0 ≤ _
      rw [hrecord, List.length_append, length_trailingComment]
      omega
    rwa [endRecordAt_drop (by omega)] at hat
  · intro i hi
    rw [Bool.eq_false_iff]
    intro hat
    have hmem := mem_drop_of_endRecordAt hat
    obtain ⟨k, rfl⟩ : ∃ k, i = endOffset [bareEntry] + 20 + (1 + k) :=
      ⟨i - (endOffset [bareEntry] + 21), by omega⟩
    rw [← List.drop_drop, hdrop, ← List.drop_drop] at hmem
    have hrest := List.mem_of_mem_drop hmem
    change (0x50 : UInt8) ∈ 0x4b :: trailingComment at hrest
    rcases List.mem_cons.mp hrest with heq | hrest
    · revert heq
      decide
    · exact not_mem_trailingComment hrest
  · omega
  · rw [hdrop]
    decide
  · rw [hdrop]
    decide

theorem archives_not_shown :
    (IsArchive nulArchive [nulEntry] [] ∧
      ∃ r, openAt zeroHeap 1 nulArchive 0 = some (.ok r) ∧
        ¬ r.Shows (placed 0 [nulEntry]) []) ∧
    (IsArchive manyArchive (List.replicate 65536 bareEntry) [] ∧
      ∃ r, openAt zeroHeap 1 manyArchive 0 = some (.ok r) ∧
        ¬ r.Shows (placed 0 (List.replicate 65536 bareEntry)) []) ∧
    (IsArchive trailingArchive [bareEntry] trailingComment ∧
      ¬ [0x50, 0x4b, 5, 6] <:+: trailingComment ∧
      ∃ r, openAt zeroHeap 1 trailingArchive 0 = some (.ok r) ∧
        ¬ r.Shows (placed 0 [bareEntry]) trailingComment) := by
  refine ⟨⟨isArchive_nulArchive, ?_⟩, ⟨isArchive_manyArchive, ?_⟩,
    isArchive_trailingArchive, ?_, ?_⟩
  · obtain ⟨r, hopen, hnames⟩ := nulArchive_names
    refine ⟨r, hopen, fun h => ?_⟩
    rw [h.files] at hnames
    revert hnames
    decide
  · obtain ⟨r, hopen, hfiles⟩ := manyArchive_files
    refine ⟨r, hopen, fun h => ?_⟩
    have hlength := congrArg List.length (hfiles.symm.trans h.files)
    rw [List.length_nil, List.length_map, length_placed,
      List.length_replicate] at hlength
    omega
  · intro h
    exact not_mem_trailingComment (h.subset List.mem_cons_self)
  · obtain ⟨r, hopen, hfiles⟩ := trailingArchive_files
    refine ⟨r, hopen, fun h => ?_⟩
    have hlength := congrArg List.length (hfiles.symm.trans h.files)
    rw [List.length_nil, List.length_map, length_placed,
      List.length_singleton] at hlength
    omega

end Baulk.Zip
