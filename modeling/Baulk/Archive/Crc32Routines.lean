import Mathlib.Tactic.Ring
import Baulk.Archive.Crc32Table
import Baulk.Support.BitMatrix
import Baulk.Support.CrcErrors

/-!
# The routines for CRC-32

There are ten routines besides `crc32_bitwise`: with a table for half a byte or
for a byte, without a table, and with several tables for 4, 8 or 16 bytes at a
time.  All of them compute the same checksum.  `crc32_combine` merges the
checksums of two blocks without the blocks, and a checksum tells apart texts
that differ in a short burst of bits.
-/

namespace Baulk.Archive

open Support

/-! ## One byte after the other -/

/-- The loop over the bytes, with what a routine does with one. -/
def eachByte (next : BitVec 32 → BitVec 8 → BitVec 32) (data : Bytes)
    (previousCrc32 : BitVec 32) : BitVec 32 :=
  ~~~data.foldl (fun crc b => next crc b.toBitVec) (~~~previousCrc32)

def crc32Lookup16 : List (BitVec 32) :=
  [0x00000000, 0x1DB71064, 0x3B6E20C8, 0x26D930AC, 0x76DC4190, 0x6B6B51F4,
    0x4DB26158, 0x5005713C, 0xEDB88320, 0xF00F9344, 0xD6D6A3E8, 0xCB61B38C,
    0x9B64C2B0, 0x86D3D2D4, 0xA00AE278, 0xBDBDF21C]

/-- An entry of `Crc32Lookup16`. -/
def lookup16 (i : BitVec 4) : BitVec 32 :=
  crc32Lookup16.getD i.toNat 0

/-- One byte of `crc32_halfbyte`. -/
def halfbyteNext (crc : BitVec 32) (b : BitVec 8) : BitVec 32 :=
  let crc := lookup16 ((crc ^^^ b.setWidth 32).setWidth 4) ^^^ (crc >>> 4)
  lookup16 ((crc ^^^ (b >>> 4).setWidth 32).setWidth 4) ^^^ (crc >>> 4)

def crc32Halfbyte : Bytes → BitVec 32 → BitVec 32 :=
  eachByte halfbyteNext

/-- One byte of the standard algorithm. -/
def byteNext (crc : BitVec 32) (b : BitVec 8) : BitVec 32 :=
  (crc >>> 8) ^^^ tableEntry 0 (crc.setWidth 8 ^^^ b)

/-- `crc32_1byte`. -/
def crc32OneByte : Bytes → BitVec 32 → BitVec 32 :=
  eachByte byteNext

/-- What a byte becomes in `crc32_1byte_tableless`. -/
def tablelessWord (s : BitVec 8) : BitVec 32 :=
  let low : BitVec 32 := (s.setWidth 32 ^^^ (s.setWidth 32 <<< 6)) &&& 0xFF
  let a := low * ((1 <<< 23) + (1 <<< 14) + (1 <<< 2))
  (low * ((1 <<< 24) + (1 <<< 16) + (1 <<< 8))) ^^^ a ^^^ (a >>> 1) ^^^
    (low * ((1 <<< 20) + (1 <<< 12))) ^^^ (low <<< 19) ^^^ (low <<< 17) ^^^ (low >>> 2)

/-- One byte of `crc32_1byte_tableless`. -/
def tablelessNext (crc : BitVec 32) (b : BitVec 8) : BitVec 32 :=
  (crc >>> 8) ^^^ tablelessWord (crc.setWidth 8 ^^^ b)

/-- `crc32_1byte_tableless`. -/
def crc32OneByteTableless : Bytes → BitVec 32 → BitVec 32 :=
  eachByte tablelessNext

/-- `((crc << n) >> 31) & word`, where the second shift copies the sign. -/
def signMask (crc : BitVec 32) (n : Nat) (word : BitVec 32) : BitVec 32 :=
  (crc <<< n).sshiftRight 31 &&& word

/-- `c` of `crc32_1byte_tableless2`. -/
def tableless2Word (crc : BitVec 32) : BitVec 32 :=
  signMask crc 31 ((polynomial >>> 7) ^^^ (polynomial >>> 1)) ^^^
    signMask crc 30 ((polynomial >>> 6) ^^^ polynomial) ^^^
    signMask crc 29 (polynomial >>> 5) ^^^ signMask crc 28 (polynomial >>> 4) ^^^
    signMask crc 27 (polynomial >>> 3) ^^^ signMask crc 26 (polynomial >>> 2) ^^^
    signMask crc 25 (polynomial >>> 1) ^^^ signMask crc 24 polynomial

/-- One byte of `crc32_1byte_tableless2`. -/
def tableless2Next (crc : BitVec 32) (b : BitVec 8) : BitVec 32 :=
  let crc := crc ^^^ b.setWidth 32
  (crc >>> 8) ^^^ tableless2Word crc

/-- `crc32_1byte_tableless2`. -/
def crc32OneByteTableless2 : Bytes → BitVec 32 → BitVec 32 :=
  eachByte tableless2Next

/-! ## Several bytes at a time -/

/-- A word, with the tables from `slice` on. -/
def sliceWord (slice : Nat) (word : BitVec 32) : BitVec 32 :=
  tableEntry slice ((word >>> 24).setWidth 8) ^^^
    tableEntry (slice + 1) ((word >>> 16).setWidth 8) ^^^
    tableEntry (slice + 2) ((word >>> 8).setWidth 8) ^^^
    tableEntry (slice + 3) (word.setWidth 8)

/-- The block of `crc32_4bytes`. -/
def fourBytesBlock (crc : BitVec 32) (data : Bytes) : BitVec 32 :=
  sliceWord 0 (wordAt data 0 ^^^ crc)

/-- The block of `crc32_8bytes`. -/
def eightBytesBlock (crc : BitVec 32) (data : Bytes) : BitVec 32 :=
  sliceWord 0 (wordAt data 4) ^^^ sliceWord 4 (wordAt data 0 ^^^ crc)

/-- The block of `crc32_16bytes`. -/
def sixteenBytesBlock (crc : BitVec 32) (data : Bytes) : BitVec 32 :=
  sliceWord 0 (wordAt data 12) ^^^ sliceWord 4 (wordAt data 8) ^^^ sliceWord 8 (wordAt data 4) ^^^
    sliceWord 12 (wordAt data 0 ^^^ crc)

/-- A round of `unroll` blocks. -/
def unrolled (block : BitVec 32 → Bytes → BitVec 32) (size : Nat) :
    Nat → BitVec 32 → Bytes → BitVec 32
  | 0, crc, _ => crc
  | unroll + 1, crc, data => unrolled block size unroll (block crc data) (data.drop size)

/-- `while (length >= bytesAtOnce + prefetchAhead)`: the register, and the bytes that are left. -/
def sliceLoop (round : BitVec 32 → Bytes → BitVec 32) (bytesAtOnce prefetchAhead : Nat) :
    Nat → BitVec 32 → Bytes → BitVec 32 × Bytes
  | 0, crc, data => (crc, data)
  | fuel + 1, crc, data =>
      if bytesAtOnce + prefetchAhead ≤ data.length then
        sliceLoop round bytesAtOnce prefetchAhead fuel (round crc data) (data.drop bytesAtOnce)
      else (crc, data)

/-- A routine with blocks, and the standard algorithm for the bytes that are left. -/
def sliced (block : BitVec 32 → Bytes → BitVec 32) (size unroll prefetchAhead : Nat)
    (data : Bytes) (previousCrc32 : BitVec 32) : BitVec 32 :=
  let (crc, rest) := sliceLoop (unrolled block size unroll) (size * unroll) prefetchAhead
    data.length (~~~previousCrc32) data
  ~~~rest.foldl (fun crc b => byteNext crc b.toBitVec) crc

/-- `crc32_4bytes`. -/
def crc32FourBytes : Bytes → BitVec 32 → BitVec 32 :=
  sliced fourBytesBlock 4 1 0

/-- `crc32_8bytes`. -/
def crc32EightBytes : Bytes → BitVec 32 → BitVec 32 :=
  sliced eightBytesBlock 8 1 0

/-- `crc32_4x8bytes`. -/
def crc32FourByEightBytes : Bytes → BitVec 32 → BitVec 32 :=
  sliced eightBytesBlock 8 4 0

/-- `crc32_16bytes`. -/
def crc32SixteenBytes : Bytes → BitVec 32 → BitVec 32 :=
  sliced sixteenBytesBlock 16 4 0

/-- The look-aheads with which the sum `BytesAtOnce + prefetchAhead` fits a `size_t`.  Behind
them it wraps, and the loop reads out of bounds. -/
abbrev PrefetchAhead :=
  Fin (2 ^ 64 - 64)

/-- `crc32_16bytes_prefetch`. -/
def crc32SixteenBytesPrefetch (prefetchAhead : PrefetchAhead) : Bytes → BitVec 32 → BitVec 32 :=
  sliced sixteenBytesBlock 16 4 prefetchAhead

/-- All routines but `crc32_bitwise`. -/
def crc32Routines (prefetchAhead : PrefetchAhead) : List (Bytes → BitVec 32 → BitVec 32) :=
  [crc32Halfbyte, crc32OneByte, crc32OneByteTableless, crc32OneByteTableless2, crc32FourBytes,
    crc32EightBytes, crc32FourByEightBytes, crc32SixteenBytes,
    crc32SixteenBytesPrefetch prefetchAhead, crc32Fast]

/-! ## One byte -/

theorem eachByte_eq {next : BitVec 32 → BitVec 8 → BitVec 32}
    (h : ∀ crc b, next crc b = ReflectedCrc.feed polynomial crc b) :
    eachByte next = crc32Bitwise := by
  funext data previousCrc32
  rw [crc32Bitwise_eq_feedAll, eachByte, feedAll, List.foldl_map]
  simp only [h]

theorem byteNext_eq (crc : BitVec 32) (b : BitVec 8) :
    byteNext crc b = ReflectedCrc.feed polynomial crc b := by
  rw [byteNext, ReflectedCrc.feed_eq_table, tableEntry_eq (by decide), crc32Lookup_zero]

theorem lookup16_eq (i : BitVec 4) :
    lookup16 i = ReflectedCrc.steps polynomial 4 (i.setWidth 32) := by
  rw [← bitStep_iterate]
  revert i
  decide

theorem steps_four (c : BitVec 32) :
    ReflectedCrc.steps polynomial 4 c = lookup16 (c.setWidth 4) ^^^ (c >>> 4) := by
  rw [ReflectedCrc.steps_eq_shift_xor, lookup16_eq, BitVec.xor_comm]

theorem halfbyteNext_eq (crc : BitVec 32) (b : BitVec 8) :
    halfbyteNext crc b = ReflectedCrc.feed polynomial crc b := by
  have hgone : (b.setWidth 32 : BitVec 32) >>> 4 >>> 4 = 0#32 := by
    apply BitVec.eq_of_getLsbD_eq
    intro i _
    rw [← BitVec.shiftRight_add, BitVec.getLsbD_ushiftRight, BitVec.getLsbD_setWidth,
      BitVec.getLsbD_of_ge b _ (by omega)]
    simp
  have hhigh : (b >>> 4).setWidth 32 = (b.setWidth 32 : BitVec 32) >>> 4 := by
    apply BitVec.eq_of_getLsbD_eq
    intro i hi
    rw [BitVec.getLsbD_setWidth, BitVec.getLsbD_ushiftRight, BitVec.getLsbD_ushiftRight,
      BitVec.getLsbD_setWidth]
    by_cases hlt : 4 + i < 8
    · have hlt' : 4 + i < 32 := by omega
      simp [hi, hlt']
    · simp [BitVec.getLsbD_of_ge b (4 + i) (by omega)]
  -- the half that was not looked up is added before the second look
  have hfirst : ReflectedCrc.steps polynomial 4 (crc ^^^ b.setWidth 32) =
      (lookup16 ((crc ^^^ b.setWidth 32).setWidth 4) ^^^ (crc >>> 4)) ^^^
        (b >>> 4).setWidth 32 := by
    rw [steps_four, BitVec.ushiftRight_xor_distrib, hhigh, BitVec.xor_assoc]
  have hsecond (c : BitVec 32) :
      ReflectedCrc.steps polynomial 4 (c ^^^ (b >>> 4).setWidth 32) =
        lookup16 ((c ^^^ (b >>> 4).setWidth 32).setWidth 4) ^^^ (c >>> 4) := by
    rw [steps_four, BitVec.ushiftRight_xor_distrib, hhigh, hgone, BitVec.xor_zero]
  rw [ReflectedCrc.feed, ReflectedCrc.steps_add polynomial 4 4, hfirst, hsecond]
  rfl

theorem tablelessWord_eq (s : BitVec 8) :
    tablelessWord s = ReflectedCrc.table polynomial 0 s := by
  rw [← crc32Lookup_zero]
  revert s
  decide +kernel

theorem tablelessNext_eq (crc : BitVec 32) (b : BitVec 8) :
    tablelessNext crc b = ReflectedCrc.feed polynomial crc b := by
  rw [tablelessNext, tablelessWord_eq, ReflectedCrc.feed_eq_table]

theorem signMask_eq (crc : BitVec 32) {n : Nat} (hn : n < 32) (word : BitVec 32) :
    signMask crc n word = if crc.getLsbD (31 - n) then word else 0#32 := by
  have hbit : ∀ i < 32, ((crc <<< n).sshiftRight 31).getLsbD i = crc.getLsbD (31 - n) := by
    intro i hi
    have hge : ¬ 31 < n := by omega
    have hin : ¬ 32 ≤ i := by omega
    rw [BitVec.getLsbD_sshiftRight, BitVec.getLsbD_eq_getElem (by omega : 31 - n < 32)]
    by_cases hzero : i = 0
    · simp [hzero, hge]
    · have hpast : ¬ 31 + i < 32 := by omega
      simp [hin, hpast, BitVec.msb_eq_getLsbD_last, hge]
  apply BitVec.eq_of_getLsbD_eq
  intro i hi
  rw [signMask, BitVec.getLsbD_and, hbit i hi]
  cases crc.getLsbD (31 - n) <;> simp

theorem tableless2Word_setWidth (crc : BitVec 32) :
    tableless2Word crc = tableless2Word ((crc.setWidth 8).setWidth 32) := by
  simp [tableless2Word, signMask_eq]

theorem tableless2Word_eq (s : BitVec 8) :
    tableless2Word (s.setWidth 32) = ReflectedCrc.steps polynomial 8 (s.setWidth 32) := by
  rw [← bitStep_iterate]
  revert s
  decide

theorem tableless2Next_eq (crc : BitVec 32) (b : BitVec 8) :
    tableless2Next crc b = ReflectedCrc.feed polynomial crc b := by
  rw [ReflectedCrc.feed, ReflectedCrc.steps_eq_shift_xor, ← tableless2Word_eq,
    ← tableless2Word_setWidth]
  rfl

/-! ## Blocks -/

/-- A block does what its bytes do one after the other. -/
def TakesIn (block : BitVec 32 → Bytes → BitVec 32) (size : Nat) : Prop :=
  ∀ (crc : BitVec 32) (data : Bytes), size ≤ data.length →
    block crc data = feedAll crc (data.take size)

theorem steps_byte (k : Nat) (c : BitVec 32) :
    ReflectedCrc.steps polynomial (8 * (k + 1)) c =
      crc32Lookup k (c.setWidth 8) ^^^ ReflectedCrc.steps polynomial (8 * k) (c >>> 8) := by
  rw [Nat.mul_succ, ReflectedCrc.steps_add, ReflectedCrc.steps_eq_shift_xor polynomial 8 c,
    ReflectedCrc.steps_xor, ← ReflectedCrc.steps_add, ← Nat.mul_succ, BitVec.xor_comm,
    crc32Lookup_eq_table]
  rfl

/-- The tables hold what is left of a word after the bytes behind it. -/
theorem sliceWord_eq {slice : Nat} (h : slice + 3 < 16) (word : BitVec 32) :
    sliceWord slice word = ReflectedCrc.steps polynomial (8 * (slice + 4)) word := by
  have htwo : word >>> 8 >>> 8 = word >>> 16 := (BitVec.shiftRight_add ..).symm
  have hthree : word >>> 16 >>> 8 = word >>> 24 := (BitVec.shiftRight_add ..).symm
  have hgone : word >>> 24 >>> 8 = 0#32 := by
    apply BitVec.eq_of_getLsbD_eq
    intro i hi
    simp
  have hzero : ReflectedCrc.steps polynomial (8 * slice) 0#32 = 0#32 := by
    rw [ReflectedCrc.steps_of_low_zero polynomial fun i _ => BitVec.getLsbD_zero,
      BitVec.zero_ushiftRight]
  rw [steps_byte (slice + 3), steps_byte (slice + 2), steps_byte (slice + 1), steps_byte slice,
    htwo, hthree, hgone, hzero, BitVec.xor_zero, sliceWord, tableEntry_eq (by omega),
    tableEntry_eq (by omega), tableEntry_eq (by omega), tableEntry_eq (by omega)]
  ac_rfl

theorem wordAt_drop (data : Bytes) (n i : Nat) : wordAt (data.drop n) i = wordAt data (n + i) := by
  simp only [wordAt, List.getD_eq_getElem?_getD, List.getElem?_drop, Nat.add_assoc]

theorem takesIn_fourBytesBlock : TakesIn fourBytesBlock 4 := by
  intro crc data h
  obtain ⟨a, b, c, d, rest, rfl⟩ : ∃ a b c d rest, data = a :: b :: c :: d :: rest := by
    match data, h with
    | a :: b :: c :: d :: rest, _ => exact ⟨a, b, c, d, rest, rfl⟩
  obtain ⟨ha, hb, hc, hd⟩ := word_bytes a.toBitVec b.toBitVec c.toBitVec d.toBitVec
  have htwo : crc >>> 8 >>> 8 = crc >>> 16 := (BitVec.shiftRight_add ..).symm
  have hthree : crc >>> 16 >>> 8 = crc >>> 24 := (BitVec.shiftRight_add ..).symm
  have hgone : crc >>> 24 >>> 8 = 0#32 := by
    apply BitVec.eq_of_getLsbD_eq
    intro i hi
    simp
  have hentry (slice : Nat) (h : slice < 4) (i : BitVec 8) :
      tableEntry slice i = ReflectedCrc.table polynomial slice i := by
    rw [tableEntry_eq (by omega), crc32Lookup_eq_table]
  simp (disch := decide) only [fourBytesBlock, sliceWord, wordAt, List.getD_cons_succ,
    List.getD_cons_zero, Nat.zero_add, BitVec.ushiftRight_xor_distrib, BitVec.setWidth_xor, ha,
    hb, hc, hd, hentry, feedAll, List.take_succ_cons, List.take_zero, List.map_cons,
    List.map_nil, ReflectedCrc.foldl_feed_cons, List.length_cons, List.length_nil, htwo, hthree,
    hgone, List.foldl_nil, BitVec.xor_zero, BitVec.xor_comm _ (BitVec.setWidth 8 _)]
  ac_rfl

theorem eightBytesBlock_eq (crc : BitVec 32) (data : Bytes) :
    eightBytesBlock crc data = fourBytesBlock (fourBytesBlock crc data) (data.drop 4) := by
  rw [eightBytesBlock, fourBytesBlock, fourBytesBlock, wordAt_drop, sliceWord_eq (by decide),
    sliceWord_eq (by decide), sliceWord_eq (by decide), sliceWord_eq (by decide),
    ReflectedCrc.steps_xor polynomial _ (wordAt data (4 + 0)), ← ReflectedCrc.steps_add]

theorem takesIn_eightBytesBlock : TakesIn eightBytesBlock 8 := by
  intro crc data h
  have hrest : 4 ≤ (data.drop 4).length := by
    rw [List.length_drop]
    omega
  rw [eightBytesBlock_eq, takesIn_fourBytesBlock crc data (by omega),
    takesIn_fourBytesBlock _ _ hrest, ← feedAll_append, ← List.take_add]

theorem sixteenBytesBlock_eq (crc : BitVec 32) (data : Bytes) :
    sixteenBytesBlock crc data = eightBytesBlock (eightBytesBlock crc data) (data.drop 8) := by
  simp (disch := decide) only [sixteenBytesBlock, eightBytesBlock, wordAt_drop, sliceWord_eq,
    ReflectedCrc.steps_xor, ← ReflectedCrc.steps_add, Nat.reduceAdd, Nat.reduceMul]
  ac_rfl

theorem takesIn_sixteenBytesBlock : TakesIn sixteenBytesBlock 16 := by
  intro crc data h
  have hrest : 8 ≤ (data.drop 8).length := by
    rw [List.length_drop]
    omega
  rw [sixteenBytesBlock_eq, takesIn_eightBytesBlock crc data (by omega),
    takesIn_eightBytesBlock _ _ hrest, ← feedAll_append, ← List.take_add]

theorem takesIn_unrolled {block : BitVec 32 → Bytes → BitVec 32} {size : Nat}
    (hblock : TakesIn block size) (unroll : Nat) :
    TakesIn (unrolled block size unroll) (size * unroll) := by
  induction unroll with
  | zero =>
      intro crc data _
      rw [Nat.mul_zero, List.take_zero]
      rfl
  | succ unroll ih =>
      intro crc data h
      rw [Nat.mul_succ] at h
      have hrest : size * unroll ≤ (data.drop size).length := by
        rw [List.length_drop]
        omega
      rw [unrolled, hblock crc data (by omega), ih _ _ hrest, ← feedAll_append, ← List.take_add,
        Nat.mul_succ, Nat.add_comm]

theorem feedAll_sliceLoop {round : BitVec 32 → Bytes → BitVec 32} {bytesAtOnce : Nat}
    (hround : TakesIn round bytesAtOnce) (prefetchAhead fuel : Nat) (crc : BitVec 32)
    (data : Bytes) :
    feedAll (sliceLoop round bytesAtOnce prefetchAhead fuel crc data).1
        (sliceLoop round bytesAtOnce prefetchAhead fuel crc data).2 =
      feedAll crc data := by
  induction fuel generalizing crc data with
  | zero => rfl
  | succ fuel ih =>
      rw [sliceLoop]
      split
      · next h =>
        rw [ih, hround crc data (by omega), ← feedAll_append, List.take_append_drop]
      · rfl

theorem sliced_eq {block : BitVec 32 → Bytes → BitVec 32} {size : Nat}
    (hblock : TakesIn block size) (unroll prefetchAhead : Nat) :
    sliced block size unroll prefetchAhead = crc32Bitwise := by
  funext data previousCrc32
  have hrest (crc : BitVec 32) (rest : Bytes) :
      rest.foldl (fun crc b => byteNext crc b.toBitVec) crc = feedAll crc rest := by
    rw [feedAll, List.foldl_map]
    simp only [byteNext_eq]
  have hloop := feedAll_sliceLoop (takesIn_unrolled hblock unroll) prefetchAhead data.length
    (~~~previousCrc32) data
  rw [crc32Bitwise_eq_feedAll, sliced]
  dsimp only
  rw [hrest, hloop]

/-- Every routine computes the checksum, for all data and all starting values. -/
theorem crc32Routines_eq (prefetchAhead : PrefetchAhead) :
    crc32Routines prefetchAhead = List.replicate 10 crc32Bitwise := by
  have hhalfbyte : crc32Halfbyte = crc32Bitwise := eachByte_eq halfbyteNext_eq
  have hbyte : crc32OneByte = crc32Bitwise := eachByte_eq byteNext_eq
  have htableless : crc32OneByteTableless = crc32Bitwise := eachByte_eq tablelessNext_eq
  have htableless2 : crc32OneByteTableless2 = crc32Bitwise := eachByte_eq tableless2Next_eq
  have hfour : crc32FourBytes = crc32Bitwise := sliced_eq takesIn_fourBytesBlock 1 0
  have height : crc32EightBytes = crc32Bitwise := sliced_eq takesIn_eightBytesBlock 1 0
  have hunrolled : crc32FourByEightBytes = crc32Bitwise := sliced_eq takesIn_eightBytesBlock 4 0
  have hsixteen : crc32SixteenBytes = crc32Bitwise := sliced_eq takesIn_sixteenBytesBlock 4 0
  have hprefetch : crc32SixteenBytesPrefetch prefetchAhead = crc32Bitwise :=
    sliced_eq takesIn_sixteenBytesBlock 4 prefetchAhead
  have hfast : crc32Fast = crc32Bitwise := by
    funext data previousCrc32
    exact crc32Fast_eq_crc32Bitwise data previousCrc32
  rw [crc32Routines, hhalfbyte, hbyte, htableless, htableless2, hfour, height, hunrolled,
    hsixteen, hprefetch, hfast]
  rfl

/-! ## Two blocks -/

def zeroBit : List (BitVec 32) :=
  polynomial :: (List.range 31).map fun i => 1#32 <<< i

/-- The loop of `crc32_combine`, from the matrix for half as many zeros on. -/
def combineLoop (half : List (BitVec 32)) (crcA : BitVec 32) (lengthB : Nat) : BitVec 32 :=
  if lengthB = 0 then crcA
  else
    let mat := BitMatrix.square half
    combineLoop mat (if lengthB % 2 = 1 then BitMatrix.times mat crcA 0#32 else crcA) (lengthB / 2)
termination_by lengthB

def crc32Combine (crcA crcB : BitVec 32) (lengthB : Nat) : BitVec 32 :=
  if lengthB = 0 then crcA
  else
    let even := BitMatrix.square zeroBit
    let odd := BitMatrix.square even
    combineLoop odd crcA lengthB ^^^ crcB

theorem linear_steps (n : Nat) : BitMatrix.Linear (ReflectedCrc.steps polynomial n) :=
  ReflectedCrc.steps_xor polynomial n

theorem zeroBit_eq : zeroBit = BitMatrix.columns (ReflectedCrc.steps polynomial 1) := by
  have hstep : ReflectedCrc.steps polynomial 1 = bitStep := by
    rw [bitStep_eq_step]
    rfl
  rw [hstep]
  decide

theorem square_steps (n : Nat) :
    BitMatrix.square (BitMatrix.columns (ReflectedCrc.steps polynomial n)) =
      BitMatrix.columns (ReflectedCrc.steps polynomial (2 * n)) := by
  rw [BitMatrix.square_columns (linear_steps n), Nat.two_mul]
  congr 1
  funext c
  exact (ReflectedCrc.steps_add polynomial n n c).symm

theorem combineLoop_eq (n : Nat) (crcA : BitVec 32) (lengthB : Nat) :
    combineLoop (BitMatrix.columns (ReflectedCrc.steps polynomial n)) crcA lengthB =
      ReflectedCrc.steps polynomial (2 * n * lengthB) crcA := by
  induction lengthB using Nat.strong_induction_on generalizing n crcA with
  | _ lengthB ih =>
      rw [combineLoop]
      by_cases hzero : lengthB = 0
      · rw [if_pos hzero, hzero]
        rfl
      · have hhalf : lengthB / 2 < lengthB := by omega
        rw [if_neg hzero, square_steps, ih _ hhalf]
        split
        · next hodd =>
          have hlength : 2 * (2 * n) * (lengthB / 2) + 2 * n = 2 * n * lengthB := by
            conv_rhs => rw [← Nat.div_add_mod lengthB 2, hodd]
            ring
          rw [BitMatrix.times_columns (linear_steps _), ← ReflectedCrc.steps_add, hlength]
        · next heven =>
          have hlength : 2 * (2 * n) * (lengthB / 2) = 2 * n * lengthB := by
            conv_rhs => rw [← Nat.div_add_mod lengthB 2, Nat.mod_two_ne_one.mp heven]
            ring
          rw [hlength]

/-- What was in the register before some data is added at the end. -/
theorem feedAll_xor (a b : BitVec 32) (data : Bytes) :
    feedAll (a ^^^ b) data =
      feedAll a data ^^^ ReflectedCrc.steps polynomial (8 * data.length) b := by
  rw [feedAll, ReflectedCrc.foldl_feed_xor, List.length_map]
  rfl

/-- The checksums of two blocks give the checksum of both, whatever the first one starts from. -/
theorem crc32Combine_eq (a b : Bytes) (previousCrc32 : BitVec 32) :
    crc32Combine (crc32Fast a previousCrc32) (crc32Fast b 0) b.length =
      crc32Fast (a ++ b) previousCrc32 := by
  simp only [crc32Fast_eq_crc32Bitwise, crc32Bitwise_eq_feedAll, feedAll_append]
  generalize feedAll (~~~previousCrc32) a = crc
  rw [crc32Combine]
  by_cases hzero : b.length = 0
  · rw [if_pos hzero, List.length_eq_zero_iff.mp hzero]
    rfl
  · -- the complement of the first register takes the place of the starting value
    have hstart : crc = ~~~0#32 ^^^ ~~~crc := by
      rw [← BitVec.not_xor_left, BitVec.zero_xor, BitVec.not_not]
    have hmerge : feedAll crc b =
        feedAll (~~~0#32) b ^^^ ReflectedCrc.steps polynomial (8 * b.length) (~~~crc) := by
      conv_lhs => rw [hstart]
      exact feedAll_xor ..
    rw [if_neg hzero]
    dsimp only
    rw [zeroBit_eq, square_steps, square_steps, combineLoop_eq, hmerge,
      BitVec.xor_comm (feedAll _ b), BitVec.not_xor_right]
    rfl

/-! ## Errors -/

def dataBits (data : Bytes) : List Bool :=
  data.flatMap fun b => ReflectedCrc.bitsOf b.toBitVec

/-- Two texts differ, but only within some bits in a row. -/
def DifferInBurst (longest : Nat) (data data' : Bytes) : Prop :=
  ∃ front burst burst' back, dataBits data = front ++ (burst ++ back) ∧
    dataBits data' = front ++ (burst' ++ back) ∧ burst.length = burst'.length ∧
      burst.length ≤ longest ∧ burst ≠ burst'

theorem feedAll_eq_feedBits (crc : BitVec 32) (data : Bytes) :
    feedAll crc data = ReflectedCrc.feedBits polynomial crc (dataBits data) := by
  induction data generalizing crc with
  | nil => rfl
  | cons b data ih =>
      have hcons : dataBits (b :: data) = ReflectedCrc.bitsOf b.toBitVec ++ dataBits data :=
        List.flatMap_cons
      have hfeed : feedAll crc (b :: data) =
          feedAll (ReflectedCrc.feed polynomial crc b.toBitVec) data := rfl
      rw [hcons, hfeed, ih, ReflectedCrc.feedBits_append,
        ReflectedCrc.feed_eq_feedBits polynomial (by decide)]

/-- A checksum tells apart texts that differ in 32 bits in a row, or in fewer. -/
theorem crc32_ne_of_burst {data data' : Bytes} (h : DifferInBurst 32 data data') :
    crc32 data ≠ crc32 data' := by
  obtain ⟨front, burst, burst', back, hdata, hdata', hlength, hfits, hne⟩ := h
  have hmsb : polynomial.msb = true := by decide
  have hburst :=
    ReflectedCrc.feedBits_burst_ne polynomial hmsb (~~~0) front back hlength hfits hne
  intro heq
  rw [crc32, crc32, crc32Bitwise_eq_feedAll, crc32Bitwise_eq_feedAll, feedAll_eq_feedBits,
    feedAll_eq_feedBits, hdata, hdata'] at heq
  exact hburst (BitVec.not_inj.mp heq)

namespace Summator

theorem tracks_foldl_update {sum : Summator} {target : BitVec 32} {data : Bytes}
    (h : sum.Tracks target data) (htarget : target ≠ 0) (chunks : List Bytes) :
    (chunks.foldl update sum).Tracks target (data ++ chunks.flatten) := by
  induction chunks generalizing sum data with
  | nil => simpa using h
  | cons chunk chunks ih =>
      have hrest := ih (Tracks.update h htarget chunk)
      rwa [List.append_assoc] at hrest

theorem update_target (sum : Summator) (data : Bytes) : (sum.update data).target = sum.target := by
  unfold update
  split
  · rfl
  · rfl

theorem foldl_update_target (sum : Summator) (chunks : List Bytes) :
    (chunks.foldl update sum).target = sum.target := by
  induction chunks generalizing sum with
  | nil => rfl
  | cons chunk chunks ih => rw [List.foldl_cons, ih, update_target]

/-- An entry whose text is damaged in a burst passes for valid only if its checksum is zero, in
whatever chunks the text comes; the undamaged text always passes. -/
theorem valid_burst_iff (data : Bytes) (chunks : List Bytes)
    (h : chunks.flatten = data ∨ DifferInBurst 32 data chunks.flatten) :
    (chunks.foldl update { target := crc32 data }).valid = true ↔
      chunks.flatten = data ∨ crc32 data = 0 := by
  by_cases hzero : crc32 data = 0
  · refine iff_of_true ?_ (.inr hzero)
    rw [valid, foldl_update_target, if_pos hzero]
  · have htracks := tracks_foldl_update (tracks_init (crc32 data)) hzero chunks
    rw [List.nil_append] at htracks
    have hvalid : (chunks.foldl update { target := crc32 data }).valid = true ↔
        crc32 chunks.flatten = crc32 data := by
      rw [valid, htracks.1, if_neg hzero, beq_iff_eq, htracks.2]
    rw [hvalid]
    rcases h with hsame | hburst
    · rw [hsame]
      exact iff_of_true rfl (.inl rfl)
    · have hne := crc32_ne_of_burst hburst
      refine iff_of_false hne.symm ?_
      rintro (hsame | hzero')
      · exact hne (by rw [hsame])
      · exact hzero hzero'

/-- One bit of a text is not the same. -/
theorem valid_burst_byte :
    ([[0x31], [0x32]].foldl update { target := crc32 [0x31, 0x33] }).valid = false := by
  have hburst : DifferInBurst 32 [0x31, 0x33] ([[0x31], [0x32]] : List Bytes).flatten :=
    ⟨dataBits [0x31], [true], [false], (ReflectedCrc.bitsOf (0x32 : BitVec 8)).tail, by decide,
      by decide, rfl, by decide, by decide⟩
  have hiff := valid_burst_iff [0x31, 0x33] [[0x31], [0x32]] (.inr hburst)
  rw [Bool.eq_false_iff, ne_eq, hiff]
  decide

end Summator

end Baulk.Archive
