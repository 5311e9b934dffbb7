import Baulk.Zip.DecompressInput

/-!
# Entries whose input is not their own

The condition of the previous module is exact.  On an unsafe entry there is a
codec that makes the method read beyond the entry or present bytes which were
not read: one that asks for input until the length which its callback reports
is wrong.
-/

namespace Baulk.Zip

open Support (loop loop_next loop_done)

variable {start last : Nat} {content : FileBytes}

/-! ## Records of a session -/

theorem not_faithful_of_subset {s s' : Session} (h : ¬Faithful start last s)
    (hsub : s.trace ⊆ s'.trace) : ¬Faithful start last s' :=
  fun h' => h fun event hevent => h' event (hsub hevent)

theorem not_faithful_of_feed {s : Session} {got given : Bytes}
    (hne : given.length ≠ got.length) :
    ¬Faithful start last (s.log (.feed got given)) := by
  intro h
  have hfeed : given = got := h (.feed got given) (by simp [Session.log])
  exact hne (congrArg List.length hfeed)

theorem readUpTo_plain (content : FileBytes) (n : Nat) (s : Session) :
    ∃ s', s.readUpTo (plainEnv content) n =
        (.ok (s.ahead (plainEnv content) n), s') ∧
      s'.pos = s.pos + (s.ahead (plainEnv content) n).length ∧
      s.trace ⊆ s'.trace ∧
      .read s.pos (s.ahead (plainEnv content) n) ∈ s'.trace := by
  obtain ⟨⟨events, htrace, -⟩, hresult⟩ :=
    Session.readUpTo_spec (plainEnv content) n s
  have hfirst : s.readFile (plainEnv content) n =
      (.ok (s.ahead (plainEnv content) n),
        ⟨s.pos + (s.ahead (plainEnv content) n).length, s.calls + 1,
          s.trace ++ [.read s.pos (s.ahead (plainEnv content) n)]⟩) := rfl
  have hmem : .read s.pos (s.ahead (plainEnv content) n) ∈
      (s.readUpTo (plainEnv content) n).2.trace := by
    rw [Session.readUpTo, hfirst]
    dsimp only
    split
    · simp
    · simp [Session.readFile, plainEnv]
  have hok : ∀ e, (s.readUpTo (plainEnv content) n).1 ≠ .error e := by
    intro e
    rw [Session.readUpTo, hfirst]
    dsimp only
    split
    · simp
    · simp [Session.readFile, plainEnv]
  obtain ⟨hgot, hpos⟩ | ⟨⟨e, herror⟩, -⟩ := hresult
  · refine ⟨(s.readUpTo (plainEnv content) n).2, ?_, hpos, ?_, hmem⟩
    · rw [← hgot]
    · rw [htrace]
      exact List.subset_append_left _ _
  · exact absurd herror (hok e)

theorem openEntry_plain {baseOffset : UInt64} {file : File}
    (h : dataStart content baseOffset file = some start) :
    ∃ s, openEntry (plainEnv content) baseOffset file = .ok s ∧
      s.pos = start ∧ s.trace = [] := by
  unfold dataStart at h
  dsimp only at h
  split at h
  · contradiction
  rename_i hheader
  rw [not_or, Nat.not_le, Nat.not_lt] at hheader
  split at h
  · contradiction
  rename_i position hoffset
  split at h
  · contradiction
  rename_i hposition
  cases h
  obtain ⟨s, hread, -, -⟩ := @readFull_of_room content fileHeaderLen
    ⟨(file.position + baseOffset).toNat, 0 + 1, []⟩ hheader.2
  refine ⟨{ s with pos := position.toNat, calls := s.calls + 1, trace := [] },
    ?_, rfl, rfl⟩
  simp only [openEntry]
  rw [seek_of_lt hheader.1]
  dsimp only
  rw [hread]
  dsimp only
  rw [hoffset]
  dsimp only
  rw [seek_of_lt (by omega)]

/-! ## Deflate64 -/

/-- A decoder that asks for input `n` times. -/
def hungryDeflate64 (n : Nat) : Deflate64Codec where
  initRet := 0
  State := Nat
  init := n
  request
    | 0 => .finish 1
    | k + 1 => .get fun _ => k

/-- State of the input callback as long as it told the truth: all bytes
reported were read. -/
structure GetHungry (content : FileBytes) (start csize : Nat)
    (r : Inflate64Reader) (s : Session) : Prop where
  size : r.size = csize
  buffer : r.buffer.length = chunkSize
  pos : s.pos = start + r.offset
  le_csize : r.offset ≤ csize % 2 ^ 32
  le_available : r.offset ≤ content.bytes.length - start
  whole : r.offset % chunkSize = 0 ∨
    r.offset = content.bytes.length - start ∧
      content.bytes.length - start < csize % 2 ^ 32

theorem length_overwrite {buffer bytes : Bytes}
    (h : bytes.length ≤ buffer.length) :
    (overwrite buffer bytes).length = buffer.length := by
  rw [overwrite, List.length_append, List.length_drop]
  omega

theorem get_trace (r : Inflate64Reader) (s : Session) :
    s.trace ⊆ (r.get (plainEnv content) s).2.2.trace := by
  unfold Inflate64Reader.get
  split
  · exact List.Subset.refl _
  · obtain ⟨s', hread, -, hsub, -⟩ := readUpTo_plain content r.want s
    rw [hread]
    exact List.Subset.trans hsub (List.subset_append_left _ _)

/-- On an unsafe entry the callback reports a wrong length, or goes on. -/
theorem get_hungry {csize : Nat} {r : Inflate64Reader} {s : Session}
    (hnot : ¬Deflate64Safe (content.bytes.length - start) csize)
    (h : GetHungry content start csize r s) :
    ¬Faithful start last (r.get (plainEnv content) s).2.2 ∨
      GetHungry content start csize (r.get (plainEnv content) s).2.1
          (r.get (plainEnv content) s).2.2 ∧
        r.offset < (r.get (plainEnv content) s).2.1.offset := by
  obtain ⟨hsize, hbuffer, hpos, hcsize, havailable, hwhole⟩ := h
  have hwant := @Inflate64Reader.want_eq r (by rw [hsize]; omega)
  rw [hsize] at hwant
  have hnonzero : r.want ≠ 0 := by
    unfold Deflate64Safe at hnot
    simp only [chunkSize] at *
    omega
  obtain ⟨s', hread, hpos', -, -⟩ := readUpTo_plain content r.want s
  have hlength := s.length_ahead (plainEnv content) r.want
  change _ = min r.want (content.bytes.length - s.pos) at hlength
  simp only [Inflate64Reader.get, if_neg hnonzero, hread]
  generalize s.ahead (plainEnv content) r.want = got at *
  have hlen : ((overwrite r.buffer got).take
      (chunkSize - (r.want - got.length))).length =
        chunkSize - (r.want - got.length) := by
    rw [List.length_take, length_overwrite (by omega)]
    omega
  by_cases htrue : chunkSize - (r.want - got.length) = got.length
  · right
    rw [htrue]
    refine ⟨⟨hsize, ?_, ?_, ?_, ?_, ?_⟩, ?_⟩
    · show (overwrite r.buffer got).length = chunkSize
      rw [length_overwrite (by omega), hbuffer]
    · show s'.pos = _
      dsimp only
      omega
    · dsimp only
      omega
    · dsimp only
      omega
    · dsimp only
      simp only [chunkSize] at *
      omega
    · unfold Deflate64Safe at hnot
      simp only [chunkSize] at *
      omega
  · left
    exact not_faithful_of_feed (by rw [hlen]; exact htrue)

/-- A hungry decoder returns, and sees a wrong length if it asks often
enough. -/
theorem hungryDeflate64_run {csize n : Nat}
    (hnot : ¬Deflate64Safe (content.bytes.length - start) csize)
    (k : Nat) :
    ∀ (l : Deflate64Loop (hungryDeflate64 n)) (fuel : Nat), l.state = k →
      k < fuel →
      ∃ r, loop (deflate64Body (plainEnv content) (hungryDeflate64 n)) fuel l =
          some r ∧
        (¬Faithful start last l.session ∨
            GetHungry content start csize l.reader l.session ∧
              csize % 2 ^ 32 < k + l.reader.offset →
          ¬Faithful start last r.2.session) := by
  induction k with
  | zero =>
      intro l fuel hstate hfuel
      obtain ⟨fuel, rfl⟩ : ∃ m, fuel = m + 1 := ⟨fuel - 1, by omega⟩
      have hbody : deflate64Body (plainEnv content) (hungryDeflate64 n) l =
          some (.done (1, l)) := by
        simp only [deflate64Body, hstate, hungryDeflate64]
      refine ⟨(1, l), loop_done hbody, fun h => ?_⟩
      rcases h with h | ⟨h, hlt⟩
      · exact h
      · have hle := h.le_csize
        omega
  | succ k ih =>
      intro l fuel hstate hfuel
      obtain ⟨fuel, rfl⟩ : ∃ m, fuel = m + 1 := ⟨fuel - 1, by omega⟩
      obtain ⟨l', hbody, hstate', hreader, hsession⟩ :
          ∃ l' : Deflate64Loop (hungryDeflate64 n),
            deflate64Body (plainEnv content) (hungryDeflate64 n) l =
              some (.next l') ∧ l'.state = k ∧
            l'.reader = (l.reader.get (plainEnv content) l.session).2.1 ∧
            l'.session = (l.reader.get (plainEnv content) l.session).2.2 :=
        ⟨⟨k, _, l.sum, l.canceled, _⟩,
          by simp only [deflate64Body, hstate, hungryDeflate64], rfl, rfl, rfl⟩
      obtain ⟨r, hrun, hwrong⟩ := ih l' fuel hstate' (by omega)
      refine ⟨r, (loop_next hbody).trans hrun, fun h => hwrong ?_⟩
      rw [hreader, hsession]
      rcases h with h | ⟨h, hlt⟩
      · exact .inl (not_faithful_of_subset h (get_trace l.reader l.session))
      · rcases get_hungry hnot h with hnext | ⟨hnext, hmore⟩
        · exact .inl hnext
        · exact .inr ⟨hnext, by omega⟩

theorem decompressDeflate64_stale {file : File} {buffer : Bytes}
    {s : Session} (hbuffer : buffer.length = chunkSize)
    (hpos : s.pos = start)
    (hnot : ¬Deflate64Safe (content.bytes.length - start)
      file.compressedSize.toNat) :
    ∃ n fuel o, decompressDeflate64 (plainEnv content) (hungryDeflate64 n)
        file buffer fuel s = some o ∧
      ¬Faithful start last o.session := by
  obtain ⟨n, hn⟩ : ∃ n, file.compressedSize.toNat % 2 ^ 32 < n :=
    ⟨_, Nat.lt_succ_self _⟩
  obtain ⟨r, hrun, hwrong⟩ := @hungryDeflate64_run start last content
    file.compressedSize.toNat n hnot n
    { state := (hungryDeflate64 n).init
      reader := ⟨buffer, 0, file.compressedSize.toNat⟩
      sum := { target := file.crc32Value.toBitVec }
      canceled := false
      session := s } (n + 1) rfl (Nat.lt_succ_self _)
  have hstale := hwrong (.inr ⟨⟨rfl, hbuffer, hpos, Nat.zero_le _,
    Nat.zero_le _, .inl (Nat.zero_mod _)⟩, hn⟩)
  have hinit : ¬(hungryDeflate64 n).initRet ≠ 0 := fun h => h rfl
  refine ⟨n, n + 1, ?_⟩
  rw [decompressDeflate64, if_neg hinit, hrun]
  dsimp only
  split
  · exact ⟨_, rfl, hstale⟩
  split
  · exact ⟨_, rfl, hstale⟩
  · exact ⟨_, rfl, by simpa using hstale⟩

/-! ## PPMd -/

/-- A decoder that asks for `n` bytes before it fails to start. -/
def hungryPpmd (n : Nat) : PpmdCodec where
  allocated := true
  State := Nat
  start := fun _ _ _ => n
  request
    | 0 => .result 0 0
    | k + 1 => .byte fun _ => k

/-- State of the section reader while each refill was complete.  At most `m`
bytes of the file can still be asked for. -/
structure SectionHungry (content : FileBytes) (start : Nat) (csize : UInt64)
    (m : Nat) (sr : SectionReader) (s : Session) : Prop where
  reads : ∃ o, SectionAt start csize o sr s ∧
    o ≤ content.bytes.length - start ∧
    content.bytes.length - start - o + (sr.w - sr.r) ≤ m
  cache : sr.cacheb.length = SectionReader.capacity
  le_write : sr.r ≤ sr.w

theorem sectionRead_trace {env : Env} (len : Nat) (sr : SectionReader)
    (s : Session) : s.trace ⊆ (sr.read env len s).2.2.trace := by
  unfold SectionReader.read
  dsimp only
  split
  · split
    · exact List.Subset.refl _
    · rcases hread : s.readFile env _ with ⟨e | got, s'⟩
      · rw [(Session.readFile_error hread).2]
        exact List.Subset.refl _
      · show s.trace ⊆ s'.trace ++ _
        rw [(Session.readFile_ok hread).2.2, List.append_assoc]
        exact List.subset_append_left _ _
  · exact List.Subset.refl _

theorem sectionReadFull_trace {env : Env} (calls : Nat) :
    ∀ (len : Nat) (sr : SectionReader) (s : Session),
      s.trace ⊆ (sr.readFull env calls len s).2.2.trace ∧
        (0 < calls → 0 < len → (sr.read env len s).2.2.trace ⊆
          (sr.readFull env calls len s).2.2.trace) := by
  induction calls with
  | zero =>
      intro len sr s
      exact ⟨List.Subset.refl _, fun h => absurd h (Nat.lt_irrefl 0)⟩
  | succ calls ih =>
      intro len sr s
      have hfirst := @sectionRead_trace env len sr s
      unfold SectionReader.readFull
      split
      · exact ⟨List.Subset.refl _, fun _ h => by omega⟩
      · rcases hread : sr.read env len s with ⟨ec | got, sr', s'⟩ <;>
          rw [hread] at hfirst
        · exact ⟨hfirst, fun _ _ => List.Subset.refl _⟩
        · have hrest := (ih (len - got.length) sr' s').1
          dsimp only
          rcases hfull : sr'.readFull env calls (len - got.length) s'
            with ⟨ec | rest, sr'', s''⟩ <;> rw [hfull] at hrest <;>
            exact ⟨List.Subset.trans hfirst hrest, fun _ _ => hrest⟩

/-- A refill beyond the end of the file presents more than was read. -/
theorem sectionRead_short {csize : UInt64} {len o : Nat}
    {sr : SectionReader} {s : Session} (hempty : sr.r = sr.w)
    (hat : SectionAt start csize o sr s)
    (hcache : sr.cacheb.length = SectionReader.capacity)
    (hshort : content.bytes.length - start - o <
      min SectionReader.capacity (csize.toNat - o)) :
    ¬Faithful start last (sr.read (plainEnv content) len s).2.2 := by
  have hpos := hat.pos
  have hrefill : SectionReader.refill { sr with r := 0, w := 0 } =
      min SectionReader.capacity (csize.toNat - o) :=
    @refill_eq csize { sr with r := 0, w := 0 } o hat.size hat.offset
      hat.le_csize
  unfold SectionReader.read
  rw [if_pos hempty]
  dsimp only
  rw [if_neg (by omega)]
  generalize SectionReader.refill { sr with r := 0, w := 0 } = n at *
  rcases hread : s.readFile (plainEnv content) n with ⟨e | got, s'⟩
  · simp [Session.readFile, plainEnv] at hread
  · have hlength := s.length_ahead (plainEnv content) n
    change _ = min n (content.bytes.length - s.pos) at hlength
    rw [← (Session.readFile_ok hread).1] at hlength
    refine not_faithful_of_feed ?_
    rw [List.length_take, length_overwrite (by omega)]
    omega

/-- If the file ends inside the entry, the reader presents more than was read,
or uses up what is left. -/
theorem sectionRead_hungry {csize : UInt64} {m len : Nat}
    {sr : SectionReader} {s : Session}
    (hshort : content.bytes.length - start < csize.toNat) (hlen : 0 < len)
    (h : SectionHungry content start csize m sr s) :
    ¬Faithful start last (sr.read (plainEnv content) len s).2.2 ∨
      ∃ m', m' < m ∧ SectionHungry content start csize m'
        (sr.read (plainEnv content) len s).2.1
        (sr.read (plainEnv content) len s).2.2 := by
  obtain ⟨⟨o, hat, ho, hm⟩, hcache, hle⟩ := h
  have hpos := hat.pos
  by_cases hempty : sr.r = sr.w
  · by_cases hend : content.bytes.length - start - o <
        min SectionReader.capacity (csize.toNat - o)
    · exact .inl (sectionRead_short hempty hat hcache hend)
    right
    have hrefill : SectionReader.refill { sr with r := 0, w := 0 } =
        min SectionReader.capacity (csize.toNat - o) :=
      @refill_eq csize { sr with r := 0, w := 0 } o hat.size hat.offset
        hat.le_csize
    have hcapacity : 0 < SectionReader.capacity := by decide
    unfold SectionReader.read
    rw [if_pos hempty]
    dsimp only
    rw [if_neg (by omega)]
    generalize SectionReader.refill { sr with r := 0, w := 0 } = n at *
    rcases hread : s.readFile (plainEnv content) n with ⟨e | got, s'⟩
    · simp [Session.readFile, plainEnv] at hread
    · obtain ⟨hgot, hpos', -⟩ := Session.readFile_ok hread
      have hlength := s.length_ahead (plainEnv content) n
      change _ = min n (content.bytes.length - s.pos) at hlength
      rw [← hgot] at hlength
      refine ⟨m - 1, by omega, ⟨o + n, ⟨hat.size, ?_, by omega, ?_⟩,
        by omega, ?_⟩, ?_, ?_⟩
      · show sr.offset + n = _
        rw [hat.offset]
        omega
      · show s'.pos = _
        omega
      · show _ + (n - (0 + min (n - 0) len)) ≤ _
        omega
      · show (overwrite sr.cacheb got).length = _
        rw [length_overwrite (by omega), hcache]
      · show 0 + min (n - 0) len ≤ n
        omega
  · right
    unfold SectionReader.read
    rw [if_neg hempty]
    refine ⟨m - 1, by omega, ⟨o, ⟨hat.size, hat.offset, hat.le_csize,
      hpos⟩, ho, ?_⟩, hcache, ?_⟩
    · show _ + (sr.w - (sr.r + min (sr.w - sr.r) len)) ≤ _
      omega
    · show sr.r + min (sr.w - sr.r) len ≤ sr.w
      omega

theorem readFull_one {env : Env} (sr : SectionReader) (s : Session) :
    (sr.readFull env 1 1 s).2 = (sr.read env 1 s).2 := by
  unfold SectionReader.readFull
  rcases sr.read env 1 s with ⟨ec | got, sr', s'⟩ <;> rfl

/-- A hungry decoder returns, and sees a byte that was not read if it asks
often enough. -/
theorem hungryPpmd_run {csize : UInt64} {n : Nat}
    (hshort : content.bytes.length - start < csize.toNat) (k : Nat) :
    ∀ (p : PpmdState (hungryPpmd n)) (fuel : Nat), p.state = k →
      k < fuel →
      ∃ p', ppmdCall (plainEnv content) (hungryPpmd n) fuel p =
          some (0, p') ∧
        (¬Faithful start last p.session ∨
            (∃ m, m < k ∧
              SectionHungry content start csize m p.reader p.session) →
          ¬Faithful start last p'.session) := by
  induction k with
  | zero =>
      intro p fuel hstate hfuel
      obtain ⟨fuel, rfl⟩ : ∃ j, fuel = j + 1 := ⟨fuel - 1, by omega⟩
      have hbody : ppmdRequestBody (plainEnv content) (hungryPpmd n) p =
          some (.done (0, { p with state := (0 : Nat) })) := by
        simp only [ppmdRequestBody, hstate, hungryPpmd]
      refine ⟨_, loop_done hbody, fun h => ?_⟩
      rcases h with h | ⟨m, hm, -⟩
      · exact h
      · exact absurd hm (Nat.not_lt_zero m)
  | succ k ih =>
      intro p fuel hstate hfuel
      obtain ⟨fuel, rfl⟩ : ∃ j, fuel = j + 1 := ⟨fuel - 1, by omega⟩
      obtain ⟨p₁, hbody, hstate₁, hreader, hsession⟩ :
          ∃ p₁ : PpmdState (hungryPpmd n),
            ppmdRequestBody (plainEnv content) (hungryPpmd n) p =
              some (.next p₁) ∧ p₁.state = k ∧
            p₁.reader = (p.reader.read (plainEnv content) 1 p.session).2.1 ∧
            p₁.session =
              (p.reader.read (plainEnv content) 1 p.session).2.2 := by
        rw [← readFull_one]
        exact ⟨⟨k, _, _⟩,
          by simp only [ppmdRequestBody, hstate, hungryPpmd], rfl, rfl, rfl⟩
      obtain ⟨p', hrun, hwrong⟩ := ih p₁ fuel hstate₁ (by omega)
      refine ⟨p', (loop_next hbody).trans hrun, fun h => hwrong ?_⟩
      rw [hreader, hsession]
      rcases h with h | ⟨m, hm, h⟩
      · exact .inl (not_faithful_of_subset h (sectionRead_trace _ _ _))
      · rcases @sectionRead_hungry start last content csize m 1 p.reader
          p.session hshort (by decide) h with hnext | ⟨m', hm', hnext⟩
        · exact .inl hnext
        · exact .inr ⟨m', by omega, hnext⟩

theorem decompressPpmd_stale {file : File} {cache : Bytes} {s : Session}
    (hcache : cache.length = SectionReader.capacity) (hpos : s.pos = start)
    (hshort : content.bytes.length - start < file.compressedSize.toNat)
    (hvalid : SectionReader.capacity ≤ content.bytes.length - start →
      ¬ppmdParametersInvalid (ppmdParameters content start) = true) :
    ∃ n fuel o, decompressPpmd (plainEnv content) (hungryPpmd n) file cache
        fuel s = some o ∧
      ¬Faithful start last o.session := by
  obtain ⟨n, hn⟩ : ∃ n, content.bytes.length - start < n :=
    ⟨_, Nat.lt_succ_self _⟩
  have hcall : ∀ (sr : SectionReader) (s : Session),
      ∃ p' : PpmdState (hungryPpmd n),
        ppmdCall (plainEnv content) (hungryPpmd n) (n + 1) ⟨n, sr, s⟩ =
          some (0, p') ∧
        (¬Faithful start last s ∨
            (∃ m, m < n ∧ SectionHungry content start file.compressedSize m
              sr s) →
          ¬Faithful start last p'.session) := fun sr s =>
    hungryPpmd_run hshort n ⟨n, sr, s⟩ (n + 1) rfl (Nat.lt_succ_self n)
  have hallocated : ¬(!(hungryPpmd n).allocated) = true := by
    simp [hungryPpmd]
  have hstart : ∀ a b c, (hungryPpmd n).start a b c = n := fun _ _ _ => rfl
  refine ⟨n, n + 1, ?_⟩
  unfold decompressPpmd
  dsimp only
  by_cases hcapacity : SectionReader.capacity ≤ content.bytes.length - start
  · -- The first fill is complete; the decoder then asks beyond the file.
    rcases hread : s.readFile (plainEnv content) SectionReader.capacity
      with ⟨e | got, s'⟩
    · simp [Session.readFile, plainEnv] at hread
    obtain ⟨hgot, hpos', -⟩ := Session.readFile_ok hread
    have hlength := s.length_ahead (plainEnv content) SectionReader.capacity
    change _ = min _ (content.bytes.length - s.pos) at hlength
    have hval := parameters_of_ahead (plainEnv content) s
    rw [← hgot] at hlength hval
    rw [hpos] at hval
    change _ = ppmdParameters content start at hval
    rw [sectionReadFull_first (by omega) hread (by omega)]
    dsimp only
    rw [hval, if_neg (hvalid hcapacity), if_neg hallocated, hstart]
    obtain ⟨p', hrun, hwrong⟩ := hcall
      { cacheb := overwrite cache got
        size := file.compressedSize.toInt64.toInt
        offset := SectionReader.capacity
        r := 2
        w := SectionReader.capacity } (s'.log (.feed got got))
    rw [hrun]
    refine ⟨_, rfl, hwrong (.inr ⟨content.bytes.length - start, hn,
      ⟨SectionReader.capacity, ⟨rfl, rfl, by omega, ?_⟩, hcapacity, ?_⟩,
      ?_, ?_⟩)⟩
    · show s'.pos = _
      omega
    · dsimp only
      omega
    · show (overwrite cache got).length = _
      rw [length_overwrite (by omega), hcache]
    · show 2 ≤ SectionReader.capacity
      decide
  · -- Already the first fill is not.
    have hfirst : ¬Faithful start last (SectionReader.readFull
        (plainEnv content) 2 2
        { cacheb := cache, size := file.compressedSize.toInt64.toInt }
        s).2.2 := by
      refine not_faithful_of_subset
        (sectionRead_short rfl ⟨rfl, rfl, Nat.zero_le _, hpos⟩ hcache
          (by omega))
        ((sectionReadFull_trace 2 2 _ s).2 (by decide) (by decide))
    rcases hread : SectionReader.readFull (plainEnv content) 2 2
        { cacheb := cache, size := file.compressedSize.toInt64.toInt } s
      with ⟨ec | buf, sr, s'⟩ <;> rw [hread] at hfirst
    · exact ⟨_, rfl, hfirst⟩
    dsimp only at hfirst ⊢
    split
    · exact ⟨_, rfl, hfirst⟩
    · obtain ⟨p', hrun, hwrong⟩ := hcall sr s'
      rw [hstart, hrun]
      exact ⟨_, rfl, hwrong (.inl hfirst)⟩

/-! ## LZMA -/

theorem decompressLZMA_beyond {file : File} {buffer : Bytes} {s : Session}
    (hpos : s.pos = start) (hnine : file.compressedSize.toNat < 9)
    (hroom : file.compressedSize.toNat < content.bytes.length - start) :
    ∃ o, decompressLZMA (plainEnv content) ⟨0, idleCodec⟩ file buffer 0 s =
        some o ∧
      ¬Faithful start (start + file.compressedSize.toNat) o.session := by
  obtain ⟨s', hread, -, -, hmem⟩ := readUpTo_plain content 9 s
  have hlength := s.length_ahead (plainEnv content) 9
  change _ = min 9 (content.bytes.length - s.pos) at hlength
  have hbeyond : ¬Faithful start (start + file.compressedSize.toNat) s' := by
    intro h
    rcases h _ hmem with hempty | ⟨-, hlast⟩
    · rw [hempty] at hlength
      simp at hlength
      omega
    · omega
  have hnine : (9 : Nat) ≠ 0 := by decide
  have hinit : ¬(0 : Int) ≠ 0 := fun h => h rfl
  simp only [decompressLZMA, if_neg hinit, Session.readFull, if_neg hnine,
    hread]
  by_cases hfull : (s.ahead (plainEnv content) 9).length = 9
  · rw [if_pos hfull]
    dsimp only
    split
    · exact ⟨_, rfl, hbeyond⟩
    · refine ⟨_, rfl, not_faithful_of_subset hbeyond ?_⟩
      exact List.subset_append_left _ _
  · rw [if_neg hfull]
    exact ⟨_, rfl, hbeyond⟩

/-! ## The exact condition -/

/-- The entries that are read and presented as they are, whatever the codecs
do, are exactly the safe ones. -/
theorem inputContract_iff (content : FileBytes) (baseOffset : UInt64)
    (file : File) :
    InputContract content baseOffset file ↔
      InputSafe content baseOffset file := by
  constructor
  · intro h start hstart
    obtain ⟨s, hopen, hpos, htrace⟩ := openEntry_plain hstart
    have hrun : ∀ codecs fuel o,
        decompressData (plainEnv content) codecs file fuel s = some o →
        Faithful start (start + file.compressedSize.toNat) o.session := by
      intro codecs fuel o ho
      refine h (plainEnv content) codecs fuel o start rfl hstart ?_
      rw [decompress, hopen]
      exact ho
    refine ⟨fun hmethod => ?_, fun hmethod => ?_, fun hmethod => ?_⟩
    · by_contra hnot
      obtain ⟨n, fuel, o, ho, hstale⟩ := @decompressDeflate64_stale start
        (start + file.compressedSize.toNat) content file
        (idleCodecs.buffer chunkSize) s (by simp [Codecs.buffer]) hpos hnot
      refine hstale (hrun { idleCodecs with deflate64 := hungryDeflate64 n }
        fuel o ?_)
      rw [decompressData, hmethod]
      exact ho
    · by_contra hnot
      rw [not_or, Nat.not_le, Nat.not_le] at hnot
      obtain ⟨o, ho, hbeyond⟩ := @decompressLZMA_beyond start content file
        (idleCodecs.buffer xzinsize) s hpos hnot.1 hnot.2
      refine hbeyond (hrun idleCodecs 0 o ?_)
      rw [decompressData, hmethod]
      exact ho
    · by_contra hnot
      rw [not_or, not_and, Nat.not_le] at hnot
      obtain ⟨n, fuel, o, ho, hstale⟩ := @decompressPpmd_stale start
        (start + file.compressedSize.toNat) content file
        (idleCodecs.buffer SectionReader.capacity) s
        (by simp [Codecs.buffer]) hpos hnot.1 hnot.2
      refine hstale (hrun { idleCodecs with ppmd := hungryPpmd n }
        fuel o ?_)
      rw [decompressData, hmethod]
      exact ho
  · exact inputContract_of_safe

/-- The one byte of a Deflate64 entry is presented as a whole chunk, with what
the buffer held behind it. -/
theorem deflate64_oneByteEntry_stale :
    ¬InputContract (bareFile 0 [0x61] (by decide)) 0
      (oneByteEntry zipDeflate64) := by
  intro h
  have hstart : dataStart (bareFile 0 [0x61] (by decide)) 0
      (oneByteEntry zipDeflate64) = some 30 := by decide
  obtain ⟨s, hopen, hpos, -⟩ := openEntry_plain hstart
  have hnot : ¬Deflate64Safe
      ((bareFile 0 [0x61] (by decide)).bytes.length - 30)
      (oneByteEntry zipDeflate64).compressedSize.toNat := by
    unfold Deflate64Safe
    decide
  obtain ⟨n, fuel, o, ho, hstale⟩ := @decompressDeflate64_stale 30 31
    (bareFile 0 [0x61] (by decide)) (oneByteEntry zipDeflate64)
    (idleCodecs.buffer chunkSize) s (by simp [Codecs.buffer]) hpos hnot
  refine hstale (h (plainEnv (bareFile 0 [0x61] (by decide)))
    { idleCodecs with deflate64 := hungryDeflate64 n } fuel o 30 rfl hstart ?_)
  rw [decompress, hopen]
  exact ho

end Baulk.Zip
