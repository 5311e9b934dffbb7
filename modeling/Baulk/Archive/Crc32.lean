import Baulk.Core.Wide
import Baulk.Support.ReflectedCrc

/-!
# CRC-32

`crc32_bitwise` is the definition of the checksum; `crc32_fast` is the
slicing-by-16 routine which the archive readers use.  They agree on all inputs,
so checksums of chunks compose to the checksum of their concatenation.

`Summator` accumulates the checksum of one zip entry.
-/

namespace Baulk.Archive

open Support

/-- zlib's CRC-32 polynomial, reflected. -/
def polynomial : BitVec 32 := 0xEDB88320

/-- One bit of `crc32_bitwise`. -/
def bitStep (crc : BitVec 32) : BitVec 32 :=
  (crc >>> 1) ^^^ (-(crc &&& 1#32) &&& polynomial)

def crc32Bitwise (data : Bytes) (previousCrc32 : BitVec 32) : BitVec 32 :=
  ~~~data.foldl (fun crc b => bitStep^[8] (crc ^^^ b.toBitVec.setWidth 32))
    (~~~previousCrc32)

/-- `Crc32Lookup[slice][i]`, by the recurrence that generates the table. -/
def crc32Lookup : Nat → BitVec 8 → BitVec 32
  | 0, i => bitStep^[8] (i.setWidth 32)
  | slice + 1, i =>
      (crc32Lookup slice i >>> 8) ^^^
        crc32Lookup 0 ((crc32Lookup slice i).setWidth 8)

/-- The little-endian `uint32_t` at offset `i`. -/
def wordAt (data : Bytes) (i : Nat) : BitVec 32 :=
  (data.getD (i + 3) 0).toBitVec ++ (data.getD (i + 2) 0).toBitVec ++
    (data.getD (i + 1) 0).toBitVec ++ (data.getD i 0).toBitVec

/-- One unrolled step of `crc32_16bytes`. -/
def crc32Block (crc : BitVec 32) (data : Bytes) : BitVec 32 :=
  let lookup := fun (slice : Nat) (x : BitVec 32) =>
    crc32Lookup slice (x.setWidth 8)
  let one := wordAt data 0 ^^^ crc
  let two := wordAt data 4
  let three := wordAt data 8
  let four := wordAt data 12
  lookup 0 (four >>> 24) ^^^ lookup 1 (four >>> 16) ^^^
    lookup 2 (four >>> 8) ^^^ lookup 3 four ^^^
    lookup 4 (three >>> 24) ^^^ lookup 5 (three >>> 16) ^^^
    lookup 6 (three >>> 8) ^^^ lookup 7 three ^^^
    lookup 8 (two >>> 24) ^^^ lookup 9 (two >>> 16) ^^^
    lookup 10 (two >>> 8) ^^^ lookup 11 two ^^^
    lookup 12 (one >>> 24) ^^^ lookup 13 (one >>> 16) ^^^
    lookup 14 (one >>> 8) ^^^ lookup 15 one

/-- `crc32_16bytes`, which `crc32_fast` selects: blocks of 16 bytes, four at a
time, and the standard algorithm for the last 63 bytes at most. -/
def crc32Fast (data : Bytes) (previousCrc32 : BitVec 32) : BitVec 32 :=
  let blocks := 4 * (data.length / 64)
  let crc := (List.range blocks).foldl
    (fun crc k => crc32Block crc (data.drop (16 * k))) (~~~previousCrc32)
  ~~~(data.drop (16 * blocks)).foldl
    (fun crc b => (crc >>> 8) ^^^
      crc32Lookup 0 (crc.setWidth 8 ^^^ b.toBitVec)) crc

structure Summator where
  target : BitVec 32
  current : BitVec 32 := 0

namespace Summator

def update (sum : Summator) (data : Bytes) : Summator :=
  if sum.target = 0 then sum
  else { sum with current := crc32Fast data sum.current }

def valid (sum : Summator) : Bool :=
  if sum.target = 0 then true else sum.current == sum.target

end Summator

/-! ## The lookup table -/

theorem bitStep_eq_step : bitStep = ReflectedCrc.step polynomial := by
  funext crc
  have hmask : -(crc &&& 1#32) &&& polynomial =
      if crc.getLsbD 0 then polynomial else 0#32 := by
    have hone : crc &&& 1#32 = if crc.getLsbD 0 then 1#32 else 0#32 := by
      rw [BitVec.and_one_eq_setWidth_ofBool_getLsbD]
      cases crc.getLsbD 0 <;> rfl
    rw [hone]
    cases crc.getLsbD 0 <;> decide
  rw [bitStep, hmask, ReflectedCrc.step]

theorem bitStep_iterate (n : Nat) (crc : BitVec 32) :
    bitStep^[n] crc = ReflectedCrc.steps polynomial n crc := by
  rw [bitStep_eq_step, ReflectedCrc.steps]

theorem crc32Lookup_zero (i : BitVec 8) :
    crc32Lookup 0 i = ReflectedCrc.table polynomial 0 i := by
  rw [crc32Lookup, bitStep_iterate, ReflectedCrc.table]

theorem crc32Lookup_eq_table (slice : Nat) (i : BitVec 8) :
    crc32Lookup slice i = ReflectedCrc.table polynomial slice i := by
  induction slice generalizing i with
  | zero => exact crc32Lookup_zero i
  | succ slice ih =>
      have hfeed := ReflectedCrc.feed_eq_table polynomial
        (ReflectedCrc.table polynomial slice i) 0#8
      rw [BitVec.xor_zero] at hfeed
      rw [crc32Lookup, ih, crc32Lookup_zero, ← hfeed, ReflectedCrc.feed,
        ReflectedCrc.table, ReflectedCrc.table, Nat.mul_succ _ (slice + 1),
        Nat.add_comm _ 8, ReflectedCrc.steps_add]
      simp

/-! ## Slicing -/

theorem exists_sixteen {data : Bytes} (h : 16 ≤ data.length) :
    ∃ b₀ b₁ b₂ b₃ b₄ b₅ b₆ b₇ b₈ b₉ b₁₀ b₁₁ b₁₂ b₁₃ b₁₄ b₁₅ rest,
      data = b₀ :: b₁ :: b₂ :: b₃ :: b₄ :: b₅ :: b₆ :: b₇ :: b₈ :: b₉ ::
        b₁₀ :: b₁₁ :: b₁₂ :: b₁₃ :: b₁₄ :: b₁₅ :: rest := by
  match data, h with
  | b₀ :: b₁ :: b₂ :: b₃ :: b₄ :: b₅ :: b₆ :: b₇ :: b₈ :: b₉ :: b₁₀ :: b₁₁ ::
      b₁₂ :: b₁₃ :: b₁₄ :: b₁₅ :: rest, _ =>
    exact ⟨b₀, b₁, b₂, b₃, b₄, b₅, b₆, b₇, b₈, b₉, b₁₀, b₁₁, b₁₂, b₁₃, b₁₄,
      b₁₅, rest, rfl⟩

theorem word_bytes (a b c d : BitVec 8) :
    (d ++ c ++ b ++ a : BitVec 32).setWidth 8 = a ∧
      ((d ++ c ++ b ++ a : BitVec 32) >>> 8).setWidth 8 = b ∧
      ((d ++ c ++ b ++ a : BitVec 32) >>> 16).setWidth 8 = c ∧
      ((d ++ c ++ b ++ a : BitVec 32) >>> 24).setWidth 8 = d := by
  have hword : ∀ i, (d ++ c ++ b ++ a : BitVec 32).getLsbD i =
      if i < 8 then a.getLsbD i else if i - 8 < 8 then b.getLsbD (i - 8)
      else if i - 8 - 8 < 8 then c.getLsbD (i - 8 - 8)
      else d.getLsbD (i - 8 - 8 - 8) := by
    intro i
    simp only [BitVec.getLsbD_append]
  refine ⟨?_, ?_, ?_, ?_⟩ <;> apply BitVec.eq_of_getLsbD_eq <;> intro i hi
  · simp [hword, hi]
  · simp [hword, hi]
  · have hindex : 16 + i - 8 - 8 = i := by omega
    rw [BitVec.getLsbD_setWidth, BitVec.getLsbD_ushiftRight, hword,
      if_neg (by omega), if_neg (by omega), if_pos (by omega), hindex]
    simp [hi]
  · have hindex : 24 + i - 8 - 8 - 8 = i := by omega
    rw [BitVec.getLsbD_setWidth, BitVec.getLsbD_ushiftRight, hword,
      if_neg (by omega), if_neg (by omega), if_neg (by omega), hindex]
    simp [hi]

/-- A block of 16 bytes does what its bytes do one after the other. -/
theorem crc32Block_eq (crc : BitVec 32) {data : Bytes}
    (h : 16 ≤ data.length) :
    crc32Block crc data =
      ((data.take 16).map UInt8.toBitVec).foldl
        (ReflectedCrc.feed polynomial) crc := by
  obtain ⟨b₀, b₁, b₂, b₃, b₄, b₅, b₆, b₇, b₈, b₉, b₁₀, b₁₁, b₁₂, b₁₃, b₁₄,
    b₁₅, rest, rfl⟩ := exists_sixteen h
  have hword : ∀ a b c d : UInt8,
      (d.toBitVec ++ c.toBitVec ++ b.toBitVec ++ a.toBitVec :
        BitVec 32).setWidth 8 = a.toBitVec ∧
      ((d.toBitVec ++ c.toBitVec ++ b.toBitVec ++ a.toBitVec :
        BitVec 32) >>> 8).setWidth 8 = b.toBitVec ∧
      ((d.toBitVec ++ c.toBitVec ++ b.toBitVec ++ a.toBitVec :
        BitVec 32) >>> 16).setWidth 8 = c.toBitVec ∧
      ((d.toBitVec ++ c.toBitVec ++ b.toBitVec ++ a.toBitVec :
        BitVec 32) >>> 24).setWidth 8 = d.toBitVec :=
    fun a b c d => word_bytes _ _ _ _
  have htwo : crc >>> 8 >>> 8 = crc >>> 16 := (BitVec.shiftRight_add ..).symm
  have hthree : crc >>> 16 >>> 8 = crc >>> 24 :=
    (BitVec.shiftRight_add ..).symm
  have hgone : crc >>> 24 >>> 8 = 0#32 := by
    apply BitVec.eq_of_getLsbD_eq
    intro i hi
    simp
  simp only [crc32Block, wordAt, List.getD_cons_succ, List.getD_cons_zero,
    Nat.zero_add, BitVec.ushiftRight_xor_distrib, BitVec.setWidth_xor,
    hword, crc32Lookup_eq_table, List.take_succ_cons, List.take_zero,
    List.map_cons, List.map_nil, ReflectedCrc.foldl_feed_cons,
    List.length_cons, List.length_nil, Nat.reduceAdd, htwo, hthree, hgone,
    BitVec.zero_ushiftRight, BitVec.setWidth_zero, BitVec.zero_xor,
    List.foldl_nil, BitVec.xor_zero, BitVec.xor_comm _ (BitVec.setWidth 8 _)]
  ac_rfl

/-- The register after the bytes of `data`. -/
def feedAll (crc : BitVec 32) (data : Bytes) : BitVec 32 :=
  (data.map UInt8.toBitVec).foldl (ReflectedCrc.feed polynomial) crc

theorem feedAll_append (crc : BitVec 32) (a b : Bytes) :
    feedAll crc (a ++ b) = feedAll (feedAll crc a) b := by
  simp [feedAll]

theorem crc32Bitwise_eq_feedAll (data : Bytes) (previousCrc32 : BitVec 32) :
    crc32Bitwise data previousCrc32 = ~~~feedAll (~~~previousCrc32) data := by
  simp only [crc32Bitwise, feedAll, List.foldl_map, bitStep_iterate]
  rfl

theorem foldl_crc32Block (data : Bytes) (crc : BitVec 32) (n : Nat)
    (h : 16 * n ≤ data.length) :
    (List.range n).foldl
        (fun crc k => crc32Block crc (data.drop (16 * k))) crc =
      feedAll crc (data.take (16 * n)) := by
  induction n with
  | zero => rfl
  | succ n ih =>
      have hroom : 16 ≤ (data.drop (16 * n)).length := by
        rw [List.length_drop]
        omega
      rw [List.range_succ, List.foldl_append, ih (by omega),
        List.foldl_cons, List.foldl_nil, crc32Block_eq _ hroom, Nat.mul_succ,
        List.take_add, feedAll_append]
      rfl

theorem crc32Fast_eq_crc32Bitwise (data : Bytes)
    (previousCrc32 : BitVec 32) :
    crc32Fast data previousCrc32 = crc32Bitwise data previousCrc32 := by
  have hblocks : 16 * (4 * (data.length / 64)) ≤ data.length := by omega
  have htail : ∀ (crc : BitVec 32) (rest : Bytes),
      rest.foldl (fun (crc : BitVec 32) b => (crc >>> 8) ^^^
        crc32Lookup 0 (crc.setWidth 8 ^^^ b.toBitVec)) crc =
      feedAll crc rest := by
    intro crc rest
    simp only [feedAll, List.foldl_map, crc32Lookup_zero,
      ReflectedCrc.feed_eq_table]
  rw [crc32Fast, crc32Bitwise_eq_feedAll, foldl_crc32Block _ _ _ hblocks,
    htail, ← feedAll_append, List.take_append_drop]

/-! ## Chunks -/

/-- CRC-32 of a whole text. -/
def crc32 (data : Bytes) : BitVec 32 :=
  crc32Bitwise data 0

/-- Continuing the checksum of `a` with `b` gives the checksum of both. -/
theorem crc32Fast_crc32 (a b : Bytes) :
    crc32Fast b (crc32 a) = crc32 (a ++ b) := by
  rw [crc32Fast_eq_crc32Bitwise, crc32, crc32, crc32Bitwise_eq_feedAll,
    crc32Bitwise_eq_feedAll, crc32Bitwise_eq_feedAll, BitVec.not_not,
    feedAll_append]

theorem crc32_append_ne (data : Bytes) :
    crc32 (data ++ [0]) ≠ crc32 (data ++ [1]) := by
  intro h
  have hfeed : ∀ crc : BitVec 32, feedAll crc [1] =
      feedAll crc [0] ^^^ ReflectedCrc.steps polynomial 8 1#32 := by
    intro crc
    have hzero : crc ^^^ BitVec.setWidth 32 (0 : UInt8).toBitVec = crc := by
      simp
    rw [feedAll, feedAll, List.map_singleton, List.foldl_cons, List.foldl_nil,
      List.map_singleton, List.foldl_cons, List.foldl_nil, ReflectedCrc.feed,
      ReflectedCrc.feed, hzero, ← ReflectedCrc.steps_xor]
    rfl
  rw [crc32, crc32, crc32Bitwise_eq_feedAll, crc32Bitwise_eq_feedAll,
    feedAll_append, feedAll_append, hfeed] at h
  have hsame := BitVec.not_inj.mp h
  have hzero : ReflectedCrc.steps polynomial 8 1#32 = 0#32 := by
    have := congrArg (feedAll (feedAll (~~~0) data) [0] ^^^ ·) hsame
    simpa [← BitVec.xor_assoc] using this.symm
  revert hzero
  rw [← bitStep_iterate]
  decide

namespace Summator

/-- A sum with a target has seen the text `data`. -/
def Tracks (sum : Summator) (target : BitVec 32) (data : Bytes) : Prop :=
  sum.target = target ∧ sum.current = crc32 data

theorem tracks_init (target : BitVec 32) :
    Tracks { target := target } target [] :=
  ⟨rfl, by rw [crc32, crc32Bitwise_eq_feedAll]; rfl⟩

theorem Tracks.update {sum : Summator} {target : BitVec 32} {data : Bytes}
    (h : sum.Tracks target data) (htarget : target ≠ 0) (chunk : Bytes) :
    (sum.update chunk).Tracks target (data ++ chunk) := by
  rw [Summator.update, if_neg (h.1 ▸ htarget)]
  exact ⟨h.1, by rw [h.2, crc32Fast_crc32]⟩

theorem Tracks.crc32_eq {sum : Summator} {target : BitVec 32} {data : Bytes}
    (h : sum.Tracks target data) (htarget : target ≠ 0)
    (hvalid : sum.valid = true) : crc32 data = target := by
  rw [Summator.valid, if_neg (h.1 ▸ htarget), beq_iff_eq, h.2, h.1] at hvalid
  exact hvalid

end Summator

end Baulk.Archive
