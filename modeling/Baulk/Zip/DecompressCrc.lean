import Baulk.Zip.Accounting

/-!
# The checksum of a decompressed entry

Every method except storing feeds each chunk to the `Summator` before it calls
the writer, and asks it for the verdict on every successful exit.  So the sum
is always the checksum of what was written; a stored entry is written without
any check.
-/

namespace Baulk.Zip

open Archive (Summator crc32)
open Support (Step loop loop_spec)

variable {target : BitVec 32}

/-- Success is reported only for the right checksum. -/
def Checked (target : BitVec 32) (o : Outcome) : Prop :=
  o.ok = true → crc32 o.session.written = target

theorem checked_finish (htarget : target ≠ 0) {sum : Summator} {s : Session}
    (h : sum.Tracks target s.written) : Checked target (.finish sum s) := by
  intro hok
  unfold Outcome.finish at hok ⊢
  by_cases hvalid : sum.valid = true
  · rw [if_pos hvalid]
    exact h.crc32_eq htarget hvalid
  · rw [if_neg hvalid] at hok
    contradiction

theorem deliver_tracks (htarget : target ≠ 0) (env : Env) {sum : Summator}
    {s : Session} (h : sum.Tracks target s.written) (chunk : Bytes) :
    (deliver env sum chunk s).2.1.Tracks target
      (deliver env sum chunk s).2.2.written := by
  have hwritten : (deliver env sum chunk s).2.2.written = s.written ++ chunk :=
    Session.written_write env chunk s
  rw [hwritten]
  exact h.update htarget chunk

/-- The loops keep the sum up to date. -/
def crcAccounting (htarget : target ≠ 0) (env : Env) : Accounting env where
  Holds sum s := sum.Tracks target s.written
  Ends := Checked target
  of_chunks h hchunks := by
    rw [Session.written, hchunks]
    exact h
  deliver h _ := deliver_tracks htarget env h _
  fail _ _ hok := by contradiction
  canceled _ hok := by contradiction
  finish h := checked_finish htarget h

theorem decompressData_checked (env : Env) (codecs : Codecs) {file : File}
    (htarget : file.crc32Value.toBitVec ≠ 0)
    (hmethod : file.method ≠ zipStore) {fuel : Nat} {s : Session}
    {o : Outcome} (hs : s.written = [])
    (h : decompressData env codecs file fuel s = some o) :
    Checked file.crc32Value.toBitVec o := by
  refine (crcAccounting htarget env).decompressData_ends codecs hmethod ?_ h
  show Summator.Tracks _ _ s.written
  rw [hs]
  exact Summator.tracks_init _

/-! ## Stored entries -/

/-- A file that no call fails on and a writer that accepts everything. -/
def plainEnv (content : FileBytes) : Env where
  content := content
  fault := fun _ => none
  writer := fun _ => true

theorem readFull_of_room (content : FileBytes) {n : Nat} (s : Session)
    (h : s.pos + n ≤ content.bytes.length) :
    ∃ s', s.readFull (plainEnv content) n =
        (.ok ((content.bytes.drop s.pos).take n), s') ∧
      s'.pos = s.pos + n ∧ s'.written = s.written := by
  by_cases hn : n = 0
  · subst hn
    exact ⟨s, by simp [Session.readFull], rfl, rfl⟩
  · have hlength : ((content.bytes.drop s.pos).take n).length = n := by
      rw [List.length_take, List.length_drop]
      omega
    refine ⟨⟨s.pos + n, s.calls + 1,
      s.trace ++ [.read s.pos ((content.bytes.drop s.pos).take n)]⟩,
      ?_, rfl, by simp [Session.written, Session.chunks]⟩
    simp [Session.readFull, Session.readUpTo, Session.readFile, plainEnv, hn,
      hlength]

/-- A stored entry that is all there is handed to the writer and accepted. -/
theorem storeLoop_of_room (content : FileBytes) (csize : Nat) :
    ∀ (s : Session) (fuel : Nat),
      s.pos + csize ≤ content.bytes.length → csize < fuel →
      ∃ s', loop (storeBody (plainEnv content)) fuel (csize, s) =
          some ⟨true, none, s'⟩ ∧
        s'.written = s.written ++ (content.bytes.drop s.pos).take csize := by
  induction csize using Nat.strong_induction_on with
  | _ csize ih =>
      intro s fuel hroom hfuel
      obtain ⟨fuel, rfl⟩ : ∃ n, fuel = n + 1 := ⟨fuel - 1, by omega⟩
      by_cases hzero : csize = 0
      · subst hzero
        refine ⟨s, ?_, by simp⟩
        exact Support.loop_done (by simp [storeBody])
      · have hmin : 0 < min csize storeBufferSize := by
          have : 0 < storeBufferSize := by decide
          omega
        obtain ⟨s₁, hread, hpos, hwritten⟩ := readFull_of_room
          content s (by omega : s.pos + min csize storeBufferSize ≤ _)
        have hbody : storeBody (plainEnv content) (csize, s) =
            some (.next (csize - min csize storeBufferSize,
              (s₁.write (plainEnv content) ((content.bytes.drop s.pos).take
                (min csize storeBufferSize))).2)) := by
          simp only [storeBody, if_neg hzero, hread]
          rfl
        obtain ⟨s', hrun, hall⟩ := ih (csize - min csize storeBufferSize)
          (by omega) (s₁.write (plainEnv content)
            ((content.bytes.drop s.pos).take (min csize storeBufferSize))).2
          fuel (by change s₁.pos + _ ≤ _; omega) (by omega)
        refine ⟨s', ?_, ?_⟩
        · rw [Support.loop_next hbody, hrun]
        · rw [hall, Session.written_write, hwritten, List.append_assoc]
          congr 1
          change _ ++ ((content.bytes.drop s₁.pos).take _) = _
          rw [hpos, ← List.drop_drop, ← List.take_add,
            Nat.add_sub_cancel' (Nat.min_le_left _ _)]

theorem store_end_le {env : Env} :
    ∀ {fuel csize : Nat} {s : Session} {o : Outcome},
      loop (storeBody env) fuel (csize, s) = some o → o.ok = true →
      csize = 0 ∨ s.pos + csize ≤ env.content.bytes.length := by
  intro fuel
  induction fuel with
  | zero =>
      intro csize s o h
      contradiction
  | succ fuel ih =>
      intro csize s o h hok
      by_cases hzero : csize = 0
      · exact .inl hzero
      · right
        have hmin : min csize storeBufferSize ≠ 0 := by
          have : 0 < storeBufferSize := by decide
          omega
        rcases hread : s.readFull env (min csize storeBufferSize)
          with ⟨ec | got, s₁⟩
        · have hbody : storeBody env (csize, s) =
              some (.done (.fail ec s₁)) := by
            simp only [storeBody, if_neg hzero, hread]
          rw [Support.loop_done hbody, Option.some.injEq] at h
          subst h
          contradiction
        · obtain ⟨hgot, hpos, hfull⟩ := Session.readFull_ok hread
          rw [hgot, Session.length_ahead] at hfull
          cases haccept : (s₁.write env got).1 with
          | false =>
              have hbody : storeBody env (csize, s) =
                  some (.done ⟨false, none, (s₁.write env got).2⟩) := by
                simp [storeBody, hzero, hread, haccept]
              rw [Support.loop_done hbody, Option.some.injEq] at h
              subst h
              contradiction
          | true =>
              have hbody : storeBody env (csize, s) =
                  some (.next (csize - min csize storeBufferSize,
                    (s₁.write env got).2)) := by
                simp [storeBody, hzero, hread, haccept]
              rw [Support.loop_next hbody] at h
              have hrest := ih h hok
              change _ ∨ s₁.pos + _ ≤ _ at hrest
              omega

/-! ## Which entries are checked -/

/-- A local header without name and extra area. -/
def bareHeader : Bytes :=
  [0x50, 0x4b, 0x03, 0x04] ++ List.replicate 26 0

/-- The file which has a bare local header at `start` and `data` behind it. -/
def bareFile (start : Nat) (data : Bytes)
    (h : start + 30 + data.length < 2 ^ 63) : FileBytes where
  bytes := List.replicate start 0 ++ bareHeader ++ data
  length_lt := by
    simp only [bareHeader, List.length_append, List.length_replicate,
      List.length_cons, List.length_nil]
    omega

theorem length_bareFile {start : Nat} {data : Bytes}
    (h : start + 30 + data.length < 2 ^ 63) :
    (bareFile start data h).bytes.length = start + 30 + data.length := by
  simp [bareFile, bareHeader]
  omega

/-- A codec that is at its end at once. -/
def idleCodec : StreamCodec where
  State := Unit
  init := ()
  run := fun _ _ _ _ => ⟨(), 1, 0, [], Nat.zero_le _, Nat.zero_le _⟩

/-- Codecs that produce nothing. -/
def idleCodecs : Codecs where
  deflate := ⟨0, fun _ => [], idleCodec⟩
  deflate64 := ⟨0, Unit, (), fun _ => .finish 1⟩
  zstd := ⟨true, fun _ => false, fun _ => [], idleCodec⟩
  lzma := ⟨0, idleCodec⟩
  xz := ⟨0, idleCodec⟩
  bz2 := ⟨0, idleCodec⟩
  ppmd := ⟨true, Unit, fun _ _ _ => (), fun _ => .result (-1) ()⟩
  brotli := ⟨true, idleCodec⟩
  fresh := fun _ => 0

theorem seek_of_lt {content : FileBytes} {offset : UInt64} {s : Session}
    (h : offset.toNat < 2 ^ 63) :
    seek (plainEnv content) offset s =
      .ok { s with pos := offset.toNat, calls := s.calls + 1 } := by
  simp only [seek, plainEnv]
  rw [if_neg (by omega)]

theorem openEntry_bareFile (file : File) (baseOffset : UInt64) {start : Nat}
    {data : Bytes} (hstart : (file.position + baseOffset).toNat = start)
    (h : start + 30 + data.length < 2 ^ 63) :
    ∃ s, openEntry (plainEnv (bareFile start data h)) baseOffset file =
        .ok s ∧
      s.pos = start + 30 ∧ s.trace = [] := by
  have hheader : ((bareFile start data h).bytes.drop start).take 30 =
      bareHeader := by
    simp only [bareFile, List.append_assoc, List.drop_append,
      List.length_replicate, Nat.sub_self, List.drop_replicate, Nat.sub_self,
      List.replicate_zero, List.nil_append, List.drop_zero]
    rfl
  have hoffset : dataOffset (file.position + baseOffset) bareHeader =
      some (file.position + baseOffset + 30) := by
    have hsig : leValue (bareHeader.take 4) = fileHeaderSignature := by decide
    have hname : leValue ((bareHeader.drop 26).take 2) = 0 := by decide
    have hextra : leValue ((bareHeader.drop 28).take 2) = 0 := by decide
    simp [dataOffset, hsig, hname, hextra, fileHeaderLen]
  have hposition : (file.position + baseOffset + 30).toNat = start + 30 := by
    rw [UInt64.toNat_add, hstart]
    exact Nat.mod_eq_of_lt (by simp; omega)
  obtain ⟨s, hread, -, -⟩ := readFull_of_room
    (bareFile start data h) ⟨start, 0 + 1, []⟩
    (by rw [length_bareFile]; omega : start + 30 ≤ _)
  refine ⟨{ s with pos := start + 30, calls := s.calls + 1, trace := [] },
    ?_, rfl, rfl⟩
  simp only [openEntry]
  rw [seek_of_lt (by omega)]
  dsimp only
  rw [hstart, fileHeaderLen, hread, hheader]
  dsimp only
  rw [hoffset]
  dsimp only
  rw [seek_of_lt (by omega), hposition]

theorem le_of_dataOffset {realPosition position : UInt64} {header : Bytes}
    (hlt : realPosition.toNat + 30 < 2 ^ 63)
    (h : dataOffset realPosition header = some position) :
    realPosition.toNat + 30 ≤ position.toNat := by
  rw [dataOffset_toNat h (by omega), fileHeaderLen]
  omega

/-- The data of an entry starts behind its local header. -/
theorem pos_of_openEntry {env : Env} {baseOffset : UInt64} {file : File}
    {s : Session} (h : openEntry env baseOffset file = .ok s) :
    (file.position + baseOffset).toNat + 30 ≤ s.pos ∧
      (file.position + baseOffset).toNat + 30 ≤
        env.content.bytes.length ∧
      s.trace = [] := by
  unfold openEntry at h
  dsimp only at h
  split at h
  · contradiction
  rename_i s₁ hseek
  obtain ⟨hlt, hpos₁⟩ := seek_ok hseek
  rcases hread : s₁.readFull env fileHeaderLen with ⟨ec | header, s₂⟩ <;>
    rw [hread] at h
  · contradiction
  obtain ⟨hheader, -, hfull⟩ := Session.readFull_ok hread
  rw [hheader, Session.length_ahead, hpos₁, fileHeaderLen] at hfull
  have hlength := env.content.length_lt
  dsimp only at h
  cases hoffset : dataOffset (file.position + baseOffset) header with
  | none =>
      rw [hoffset] at h
      contradiction
  | some position =>
      rw [hoffset] at h
      dsimp only at h
      split at h
      · contradiction
      rename_i s₃ hseek'
      obtain ⟨-, hpos₃⟩ := seek_ok hseek'
      cases h
      refine ⟨?_, by omega, rfl⟩
      dsimp only
      rw [hpos₃]
      exact le_of_dataOffset (by omega) hoffset

/-- Of each length there is a text with another checksum. -/
theorem exists_crc32_ne (value : BitVec 32) (hvalue : value ≠ 0)
    (n : Nat) : ∃ data : Bytes, data.length = n ∧ crc32 data ≠ value := by
  cases n with
  | zero =>
      refine ⟨[], rfl, ?_⟩
      have hempty : crc32 [] = 0 := by decide
      rw [hempty]
      exact hvalue.symm
  | succ n =>
      by_cases hzero : crc32 (List.replicate n 0 ++ [0]) = value
      · refine ⟨List.replicate n 0 ++ [1], by simp, ?_⟩
        rw [← hzero]
        exact (Archive.crc32_append_ne _).symm
      · exact ⟨List.replicate n 0 ++ [0], by simp, hzero⟩

/-- Success implies the right checksum, whatever the file, the codecs and the
writer are. -/
def EntryChecked (baseOffset : UInt64) (file : File) : Prop :=
  ∀ env codecs fuel o,
    decompress env codecs baseOffset file fuel = some o →
      o.ok = true → crc32 o.session.written = file.crc32Value.toBitVec

/-- The entries that are checked are exactly those that are not stored or that
no file can hold. -/
theorem entryChecked_iff (baseOffset : UInt64) (file : File)
    (hcrc : file.crc32Value ≠ 0) :
    EntryChecked baseOffset file ↔
      file.method ≠ zipStore ∨
        2 ^ 63 ≤ (file.position + baseOffset).toNat + 30 +
          file.compressedSize.toNat := by
  have htarget : file.crc32Value.toBitVec ≠ 0 := by
    intro hzero
    exact hcrc (UInt32.toBitVec_inj.mp hzero)
  constructor
  · -- A stored entry in some file has bytes with another checksum.
    intro h
    by_contra hno
    rw [not_or, not_not, Nat.not_le] at hno
    obtain ⟨hstore, hroom⟩ := hno
    obtain ⟨data, hlength, hne⟩ :=
      exists_crc32_ne file.crc32Value.toBitVec htarget
        file.compressedSize.toNat
    rw [← hlength] at hroom
    obtain ⟨s, hopen, hpos, htrace⟩ :=
      openEntry_bareFile file baseOffset rfl hroom
    have hbytes : ((bareFile _ data hroom).bytes.drop s.pos).take
        file.compressedSize.toNat = data := by
      rw [hpos, ← hlength]
      have hfront : (List.replicate (file.position + baseOffset).toNat 0 ++
          bareHeader).length = (file.position + baseOffset).toNat + 30 := by
        simp [bareHeader]
      rw [bareFile, ← hfront, List.drop_left, List.take_length]
    obtain ⟨s', hrun, hwritten⟩ := storeLoop_of_room
      (bareFile _ data hroom) file.compressedSize.toNat s
      (file.compressedSize.toNat + 1)
      (by rw [hpos, ← hlength, length_bareFile])
      (Nat.lt_succ_self _)
    have hresult := h (plainEnv (bareFile _ data hroom)) idleCodecs
      (file.compressedSize.toNat + 1) ⟨true, none, s'⟩
      (by rw [decompress, hopen]
          simp only [decompressData, if_pos hstore]
          exact hrun) rfl
    refine hne ?_
    rw [← hresult, hwritten, hbytes]
    simp [Session.written, Session.chunks, htrace]
  · intro h env codecs fuel o hrun
    unfold decompress at hrun
    split at hrun
    · cases hrun
      intro hok
      contradiction
    rename_i s hopen
    obtain ⟨hstart, hheader, htrace⟩ := pos_of_openEntry hopen
    by_cases hstore : file.method = zipStore
    · -- No file is long enough, so the entry is not accepted.
      have hlarge : 2 ^ 63 ≤ (file.position + baseOffset).toNat + 30 +
          file.compressedSize.toNat := h.resolve_left (fun hm => hm hstore)
      intro hok
      simp only [decompressData, if_pos hstore] at hrun
      have hlength := env.content.length_lt
      have hend := store_end_le hrun hok
      omega
    · exact decompressData_checked env codecs htarget hstore
        (by simp [Session.written, Session.chunks, htrace]) hrun

/-- An entry of one byte whose checksum is given as one. -/
def oneByteEntry (method : UInt16) : File where
  compressedSize := 1
  uncompressedSize := 1
  crc32Value := 1
  method := method

theorem deflated_oneByteEntry_checked :
    (oneByteEntry zipDeflate).crc32Value ≠ 0 ∧
      EntryChecked 0 (oneByteEntry zipDeflate) :=
  ⟨by decide, (entryChecked_iff 0 (oneByteEntry zipDeflate)
    (by decide)).mpr (.inl (by decide))⟩

/-- Stored, the byte `a` is handed out as valid although its checksum is not
one. -/
theorem stored_oneByteEntry_not_checked :
    (oneByteEntry zipStore).crc32Value ≠ 0 ∧
      ¬EntryChecked 0 (oneByteEntry zipStore) := by
  refine ⟨by decide, fun h => ?_⟩
  have hcrc := h (plainEnv (bareFile 0 [0x61] (by decide))) idleCodecs 2
    ⟨true, none, ⟨31, 4, [.read 30 [0x61], .write [0x61]]⟩⟩ rfl rfl
  revert hcrc
  decide

end Baulk.Zip
