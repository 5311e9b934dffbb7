import Baulk.Zip.Archive

/-!
# Reading an archive

The end record that is used is the last one in the file, when the search
reaches back to it.  The buffered reader hands out what is ahead of it, so that
headers that follow one another are read one after another.
-/

namespace Baulk.Zip

/-! ## What the buffered reader has ahead -/

/-- The bytes of the buffer that were not handed out. -/
def BufioReader.left (br : BufioReader) : Bytes :=
  (br.data.drop br.r).take (br.w - br.r)

/-- The bytes `rest` are ahead: the buffer and the file behind it begin with
them. -/
structure Ahead (content : FileBytes) (rest : Bytes) (br : BufioReader)
    (s : Session) : Prop where
  length_data : br.data.length = bufioSize
  w_le : br.w ≤ bufioSize
  r_le : br.r ≤ br.w
  begins : rest <+: br.left ++ content.bytes.drop s.pos

theorem readFile_plain (content : FileBytes) (n : Nat) (s : Session) :
    ∃ s', s.readFile (plainEnv content) n =
        (.ok ((content.bytes.drop s.pos).take n), s') ∧
      s'.pos = s.pos + ((content.bytes.drop s.pos).take n).length :=
  ⟨_, rfl, rfl⟩

theorem take_of_isPrefix {xs ys : Bytes} (h : xs <+: ys) {n : Nat}
    (hn : n ≤ xs.length) : ys.take n = xs.take n := by
  obtain ⟨zs, rfl⟩ := h
  exact List.take_append_of_le_length hn

section Ahead

variable {content : FileBytes} {rest : Bytes} {br : BufioReader} {s : Session}

theorem Ahead.length_left (h : Ahead content rest br s) :
    br.left.length = br.w - br.r := by
  have hdata := h.length_data
  have hw := h.w_le
  unfold BufioReader.left
  rw [List.length_take, List.length_drop]
  omega

theorem Ahead.takeBuffered (h : Ahead content rest br s) {n : Nat}
    (hn : n ≤ rest.length) :
    (BufioReader.takeBuffered n br).1 = rest.take (min (br.w - br.r) n) ∧
      Ahead content (rest.drop (min (br.w - br.r) n))
        (BufioReader.takeBuffered n br).2 s := by
  have hleft := h.length_left
  generalize hk : min (br.w - br.r) n = k
  have hpart : (BufioReader.takeBuffered n br).1 = br.left.take k := by
    unfold BufioReader.takeBuffered BufioReader.left
    dsimp only
    rw [List.take_take, hk]
    congr 1
    omega
  have hrest : (BufioReader.takeBuffered n br).2.left = br.left.drop k := by
    unfold BufioReader.takeBuffered BufioReader.left
    dsimp only
    rw [hk, List.drop_take, List.drop_drop, Nat.sub_sub]
  have hr : (BufioReader.takeBuffered n br).2.r ≤ br.w := by
    have hr := h.r_le
    unfold BufioReader.takeBuffered
    dsimp only
    omega
  refine ⟨?_, h.length_data, h.w_le, hr, ?_⟩
  · rw [hpart, ← take_of_isPrefix h.begins (by omega),
      List.take_append_of_le_length (by omega)]
  · rw [hrest, ← List.drop_append_of_le_length (by omega)]
    exact h.begins.drop k

/-- After the buffer was filled the same bytes are ahead.  At the end of the
file old bytes of the buffer stand behind them. -/
theorem Ahead.fill (h : Ahead content rest br s) (hempty : br.left = [])
    {got : Bytes} (hgot : got = (content.bytes.drop s.pos).take bufioSize)
    {s' : Session} (hs' : s'.pos = s.pos + got.length) :
    Ahead content rest
      { data := overwrite br.data got, w := bufioSize, r := 0 } s' := by
  have hdata := h.length_data
  have hbegins := h.begins
  have hfile : content.bytes.drop s.pos = got ++ content.bytes.drop s'.pos := by
    rw [hs', ← List.drop_drop]
    conv_lhs => rw [← List.take_append_drop bufioSize (content.bytes.drop s.pos)]
    rw [← hgot]
    congr 1
    rw [hgot, List.length_take]
    rcases Nat.le_total bufioSize (content.bytes.drop s.pos).length with hle | hle
    · rw [Nat.min_eq_left hle]
    · rw [Nat.min_eq_right hle, List.drop_length, List.drop_eq_nil_of_le hle]
  have hle : got.length ≤ bufioSize := by
    rw [hgot, List.length_take]
    omega
  have hlength : (overwrite br.data got).length = bufioSize := by
    unfold overwrite
    rw [List.length_append, List.length_drop]
    omega
  refine ⟨hlength, le_rfl, Nat.zero_le _, ?_⟩
  have hleft : BufioReader.left
      { data := overwrite br.data got, w := bufioSize, r := 0 } =
        got ++ br.data.drop got.length := by
    unfold BufioReader.left
    rw [List.drop_zero, Nat.sub_zero, List.take_of_length_le hlength.le]
    rfl
  rw [hempty, List.nil_append, hfile] at hbegins
  rw [hleft]
  by_cases hfull : got.length = bufioSize
  · rw [List.drop_eq_nil_of_le (by omega), List.append_nil]
    exact hbegins
  · have hend : content.bytes.drop s'.pos = [] := by
      apply List.drop_eq_nil_of_le
      rw [hgot, List.length_take, List.length_drop] at hfull
      rw [hs', hgot, List.length_take, List.length_drop]
      omega
    rw [hend, List.append_nil] at hbegins ⊢
    exact hbegins.trans (List.prefix_append _ _)

theorem Ahead.read (h : Ahead content rest br s) {dest : Bytes}
    (hpos : 0 < dest.length) (hroom : dest.length ≤ rest.length) :
    ∃ k br' s', 0 < k ∧ k ≤ dest.length ∧
      br.read (plainEnv content) dest s = (.ok (rest.take k), br', s') ∧
      Ahead content (rest.drop k) br' s' := by
  unfold BufioReader.read
  rw [if_neg (by omega)]
  split
  · rename_i hempty
    have hleft : br.left = [] := by
      unfold BufioReader.left
      rw [hempty, Nat.sub_self, List.take_zero]
    have hbegins := h.begins
    rw [hleft, List.nil_append] at hbegins
    split
    · -- A long read goes past the buffer.
      obtain ⟨s', hread, hs'⟩ := readFile_plain content dest.length s
      rw [hread]
      rw [take_of_isPrefix hbegins hroom] at hs' ⊢
      have hlength : (rest.take dest.length).length = dest.length := by
        rw [List.length_take]
        omega
      refine ⟨dest.length, br, s', hpos, le_rfl, ?_, h.length_data, h.w_le,
        h.r_le, ?_⟩
      · unfold overwrite
        dsimp only
        rw [hlength, List.drop_length, List.append_nil]
      · rw [hleft, List.nil_append, hs', hlength, ← List.drop_drop]
        exact hbegins.drop _
    · obtain ⟨s', hread, hs'⟩ := readFile_plain content bufioSize s
      rw [hread]
      obtain ⟨hpart, hrest⟩ := (h.fill hleft rfl hs').takeBuffered hroom
      have hmin : min (bufioSize - 0) dest.length = dest.length := by omega
      rw [hmin] at hpart hrest
      exact ⟨dest.length, _, s', hpos, le_rfl, by rw [← hpart], hrest⟩
  · rename_i hsome
    have hr := h.r_le
    obtain ⟨hpart, hrest⟩ := h.takeBuffered hroom
    exact ⟨_, _, s, by omega, by omega, by rw [← hpart], hrest⟩

theorem Ahead.readFull (h : Ahead content rest br s) (calls : Nat)
    (dest : Bytes) (hcalls : dest.length ≤ calls)
    (hroom : dest.length ≤ rest.length) :
    ∃ br' s', br.readFull (plainEnv content) calls dest s =
        (.ok (rest.take dest.length), br', s') ∧
      Ahead content (rest.drop dest.length) br' s' := by
  induction calls generalizing dest rest br s with
  | zero =>
      have hnone : dest.length = 0 := by omega
      rw [hnone]
      exact ⟨br, s, rfl, h⟩
  | succ calls ih =>
      rw [BufioReader.readFull]
      by_cases hnone : dest.length = 0
      · rw [if_pos hnone, hnone]
        exact ⟨br, s, rfl, h⟩
      rw [if_neg hnone]
      obtain ⟨k, br₁, s₁, hk, hle, hread, h₁⟩ := h.read (by omega) hroom
      rw [hread]
      dsimp only
      have hgot : (rest.take k).length = k := by
        rw [List.length_take]
        omega
      obtain ⟨br', s', hfull, h'⟩ := ih h₁ (dest.drop k)
        (by rw [List.length_drop]; omega)
        (by rw [List.length_drop, List.length_drop]; omega)
      rw [hgot, hfull]
      rw [List.length_drop, List.drop_drop, Nat.add_sub_cancel' hle] at h'
      refine ⟨br', s', ?_, h'⟩
      dsimp only
      rw [List.length_drop, ← List.take_add, Nat.add_sub_cancel' hle]

end Ahead

/-! ## A header -/

theorem length_loadAt (mem : Memory) (address length : Nat) :
    (loadAt mem address length).length = length := by
  rw [loadAt, List.length_map, List.length_range]

theorem loadAt_storeAt (mem : Memory) (address : Nat) (xs ys zs : Bytes) :
    loadAt (storeAt mem address (xs ++ (ys ++ zs))) (address + xs.length)
      ys.length = ys := by
  unfold loadAt storeAt
  apply List.ext_getElem (by rw [List.length_map, List.length_range])
  intro i _ hlt
  rw [List.getElem_map, List.getElem_range, if_pos (by
      rw [List.length_append, List.length_append]
      omega),
    Nat.add_assoc, Nat.add_sub_cancel_left,
    List.getD_eq_getElem?_getD, List.getElem?_append_right (Nat.le_add_right _ _),
    Nat.add_sub_cancel_left, List.getElem?_append_left hlt,
    List.getElem?_eq_getElem hlt, Option.getD_some]

theorem cstringView_eq (mem : Memory) (address length : Nat) :
    cstringView mem address length =
      Entry.cstring (loadAt mem address length) := rfl

theorem Entry.headerFields_fit (e : Entry) {position : Nat}
    (hposition : position < 0xFFFFFFFF) :
    ∀ f ∈ e.headerFields position, f.2 < 256 ^ f.1 := by
  have hname := e.name_lt
  have hcomment := e.comment_lt
  have h16 : ∀ x : UInt16, x.toNat < 256 ^ 2 := fun x => x.toNat_lt
  have h32 : ∀ x : UInt32, x.toNat < 256 ^ 4 := fun x => x.toNat_lt
  unfold Entry.headerFields
  simp only [List.forall_mem_cons, h16, h32]
  refine ⟨by decide, trivial, trivial, trivial, trivial, trivial, trivial,
    trivial, trivial, trivial, hname, by decide, hcomment, by decide, trivial,
    trivial, by omega, ?_⟩
  intro f hf
  cases hf

theorem length_headerFields (e : Entry) (position : Nat) :
    (layout (e.headerFields position)).length = directoryHeaderLen := by
  rw [length_layout, Entry.map_fst_headerFields]
  rfl

/-- Smaller numbers are not the sentinel of the zip64 fields. -/
theorem beq_sizeMin {n : Nat} (h : n < 0xFFFFFFFF) :
    (UInt64.ofNat n == sizeMin) = false := by
  rw [beq_eq_false_iff_ne]
  intro heq
  have hnat := congrArg UInt64.toNat heq
  rw [UInt64.toNat_ofNat_of_lt' (by change _ < 2 ^ 64; omega)] at hnat
  change _ = 0xFFFFFFFF at hnat
  omega

section Header

variable (e : Entry) {position : Nat} (hposition : position < 0xFFFFFFFF)
include hposition

theorem field_header (k : Nat) {width n : Nat}
    (hk : (e.headerFields position)[k]? = some (width, n)) :
    field (layout (e.headerFields position)) (Entry.headerWidths.take k).sum
      width = n := by
  have hfield := field_layout (e.map_fst_headerFields position) k hk []
  rw [List.append_nil] at hfield
  rw [hfield]
  exact Nat.mod_eq_of_lt
    (e.headerFields_fit hposition _ (List.mem_of_getElem? hk))

theorem fixedPart_header :
    fixedPart (layout (e.headerFields position)) =
      { versionMadeby := e.versionMadeby
        versionNeeded := e.versionNeeded
        flags := e.flags
        method := e.method
        crc32Value := e.crc32Value
        compressedSize := UInt64.ofNat e.compressedSize.toNat
        uncompressedSize := UInt64.ofNat e.uncompressedSize.toNat
        position := UInt64.ofNat position } := by
  have hfield := @field_header e position hposition
  have h4 : field (layout (e.headerFields position)) 4 2 = _ := hfield 1 rfl
  have h6 : field (layout (e.headerFields position)) 6 2 = _ := hfield 2 rfl
  have h8 : field (layout (e.headerFields position)) 8 2 = _ := hfield 3 rfl
  have h10 : field (layout (e.headerFields position)) 10 2 = _ := hfield 4 rfl
  have h16 : field (layout (e.headerFields position)) 16 4 = _ := hfield 7 rfl
  have h20 : field (layout (e.headerFields position)) 20 4 = _ := hfield 8 rfl
  have h24 : field (layout (e.headerFields position)) 24 4 = _ := hfield 9 rfl
  have h42 : field (layout (e.headerFields position)) 42 4 = _ := hfield 16 rfl
  unfold fixedPart
  rw [h4, h6, h8, h10, h16, h20, h24, h42]
  simp only [UInt16.ofNat_toNat, UInt32.ofNat_toNat]

/-- What a header in memory says, when its name and its comment are in the
buffer. -/
theorem directoryHeader_header (mem : Memory) (buffer : Nat) :
    directoryHeader (layout (e.headerFields position))
        (storeAt mem buffer (e.name ++ e.comment)) buffer =
      { mem := storeAt mem buffer (e.name ++ e.comment)
        buffer := buffer
        filenameLen := UInt16.ofNat e.name.length
        extraLen := 0
        commentLen := UInt16.ofNat e.comment.length
        file := { e.cut.file position with time := 0 } } := by
  have hfield := @field_header e position hposition
  have h28 : field (layout (e.headerFields position)) 28 2 = _ := hfield 10 rfl
  have h30 : field (layout (e.headerFields position)) 30 2 = _ := hfield 11 rfl
  have h32 : field (layout (e.headerFields position)) 32 2 = _ := hfield 12 rfl
  have h38 : field (layout (e.headerFields position)) 38 4 = _ := hfield 15 rfl
  have hname : loadAt (storeAt mem buffer (e.name ++ e.comment)) buffer
      e.name.length = e.name := loadAt_storeAt mem buffer [] e.name e.comment
  have hcomment : loadAt (storeAt mem buffer (e.name ++ e.comment))
      (buffer + e.name.length) e.comment.length = e.comment := by
    have hload := loadAt_storeAt mem buffer e.name e.comment []
    rwa [List.append_nil] at hload
  unfold directoryHeader
  rw [h28, h30, h32, h38, fixedPart_header e hposition]
  dsimp only
  rw [Nat.add_zero, cstringView_eq, cstringView_eq, hname, hcomment,
    UInt32.ofNat_toNat]
  rfl

theorem finishHeader_header {h : DirectoryHeader} (hextra : h.extraLen = 0)
    (hfile : h.file = { e.cut.file position with time := 0 }) (fuel : Nat) :
    ∃ walk, h.walkExtraWith Endian.Reader.subSize (fuel + 1) = some walk ∧
      finishHeader (layout (e.headerFields position)) walk =
        .ok (e.cut.file position) := by
  refine ⟨.next h.initialState, ?_, ?_⟩
  · unfold DirectoryHeader.walkExtraWith
    rw [extraLoop, hextra]
    rfl
  · have hfield := @field_header e position hposition
    have h12 : field (layout (e.headerFields position)) 12 2 = _ :=
      hfield 5 rfl
    have h14 : field (layout (e.headerFields position)) 14 2 = _ :=
      hfield 6 rfl
    unfold finishHeader DirectoryHeader.initialState
    rw [hfile, h12, h14]
    dsimp only [Entry.file, Entry.cut]
    rw [beq_sizeMin e.compressed_lt, beq_sizeMin hposition]
    rfl

end Header

/-! ## The directory -/

theorem Ahead.readDirectoryHeader {content : FileBytes} {rest : Bytes}
    {d : DirectoryReader} (e : Entry) {position : Nat}
    (hposition : position < 0xFFFFFFFF)
    (h : Ahead content (e.header position ++ rest) d.br d.session)
    (place : Nat → Nat) (fuel : Nat) :
    ∃ d', Zip.readDirectoryHeader (plainEnv content) place (fuel + 1) d =
        some (.ok (e.cut.file position), d') ∧
      Ahead content rest d'.br d'.session := by
  have hfield := @field_header e position hposition
  have h0 : field (layout (e.headerFields position)) 0 4 = _ := hfield 0 rfl
  have h28 : field (layout (e.headerFields position)) 28 2 = _ := hfield 10 rfl
  have h30 : field (layout (e.headerFields position)) 30 2 = _ := hfield 11 rfl
  have h32 : field (layout (e.headerFields position)) 32 2 = _ := hfield 12 rfl
  have hlength := length_headerFields e position
  rw [Entry.header, List.append_assoc] at h
  obtain ⟨br₁, s₁, hfixed, h₁⟩ := h.readFull
    directoryHeaderLen (List.replicate directoryHeaderLen 0)
    (by rw [List.length_replicate])
    (by rw [List.length_replicate, List.length_append]; omega)
  rw [List.length_replicate, ← hlength, List.take_left] at hfixed
  rw [List.length_replicate, ← hlength, List.drop_left] at h₁
  rw [hlength] at hfixed
  unfold Zip.readDirectoryHeader readDirectoryHeaderWith
  rw [hfixed]
  dsimp only
  rw [if_neg (by rw [h0]; decide), h28, h30, h32, Nat.add_zero]
  generalize place (max d.capacity (e.name.length + e.comment.length)) = buffer
  obtain ⟨br₂, s₂, htexts, h₂⟩ := h₁.readFull
    (e.name.length + e.comment.length)
    (loadAt d.mem buffer (e.name.length + e.comment.length))
    (by rw [length_loadAt])
    (by rw [length_loadAt, List.length_append, List.length_append]; omega)
  rw [length_loadAt, ← List.length_append, List.take_left] at htexts
  rw [length_loadAt, ← List.length_append, List.drop_left] at h₂
  rw [List.length_append] at htexts
  rw [htexts]
  dsimp only
  rw [directoryHeader_header e hposition]
  obtain ⟨walk, hwalk, hfinish⟩ := finishHeader_header e hposition
    (h := { mem := storeAt d.mem buffer (e.name ++ e.comment)
            buffer := buffer
            filenameLen := UInt16.ofNat e.name.length
            extraLen := 0
            commentLen := UInt16.ofNat e.comment.length
            file := { e.cut.file position with time := 0 } }) rfl rfl fuel
  rw [hwalk]
  dsimp only
  rw [hfinish]
  exact ⟨_, rfl, h₂⟩

theorem Ahead.readDirectory {content : FileBytes} {rest : Bytes}
    {d : DirectoryReader} {es : List Entry} {position : Nat}
    (hposition : ∀ p ∈ placed position es, p.1 < 0xFFFFFFFF)
    (h : Ahead content (headers position es ++ rest) d.br d.session)
    (place : Nat → Nat) (fuel : Nat) :
    Zip.readDirectory (plainEnv content) place (fuel + 1) es.length d =
      some (.ok ((placed position es).map fun p => p.2.cut.file p.1)) := by
  induction es generalizing position d with
  | nil => rfl
  | cons e es ih =>
      rw [placed, List.forall_mem_cons] at hposition
      rw [headers, placed, List.flatMap_cons, List.append_assoc] at h
      obtain ⟨d', hheader, h'⟩ :=
        h.readDirectoryHeader e hposition.1 place fuel
      rw [List.length_cons, Zip.readDirectory, hheader]
      dsimp only
      rw [ih hposition.2 h']
      rfl

end Baulk.Zip
