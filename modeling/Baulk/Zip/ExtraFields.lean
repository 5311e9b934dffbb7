import Baulk.Zip.DirectoryHeader

/-!
# What the walk over the extra area touches

The extra area should be read as the maximal sequence of well-formed fields at
its start.  `fieldWalk` is that sequence.  The code keeps the same position but
a count of remaining bytes which `Sub` makes larger instead of smaller: after
fields with `S` bytes of data in total it believes that `2 * S` more bytes are
left than there are.  The main result turns this into the exact condition under
which the walk still ends where it should.
-/

namespace Baulk.Zip

open Endian (Reader)

/-! ## The fields of an area -/

/-- The field whose header is at `address`. -/
def fieldAt (mem : Memory) (address : Nat) : ExtraField :=
  ⟨loadLe mem address 2, address + 4, loadLe mem (address + 2) 2⟩

/-- The maximal well-formed sequence of fields at the start of the `room` bytes
from `address` on, and the number of bytes behind it. -/
def fieldWalk (mem : Memory) (address room : Nat) : List ExtraField × Nat :=
  if 4 ≤ room ∧ (fieldAt mem address).size ≤ room - 4 then
    let size := (fieldAt mem address).size
    let w := fieldWalk mem (address + 4 + size) (room - 4 - size)
    (fieldAt mem address :: w.1, w.2)
  else ([], room)
termination_by room

theorem fieldWalk_cons {mem : Memory} {address room : Nat}
    (hroom : 4 ≤ room) (hfits : (fieldAt mem address).size ≤ room - 4) :
    fieldWalk mem address room =
      (fieldAt mem address ::
        (fieldWalk mem (address + 4 + (fieldAt mem address).size)
          (room - 4 - (fieldAt mem address).size)).1,
        (fieldWalk mem (address + 4 + (fieldAt mem address).size)
          (room - 4 - (fieldAt mem address).size)).2) := by
  rw [fieldWalk, if_pos ⟨hroom, hfits⟩]

theorem fieldWalk_stop {mem : Memory} {address room : Nat}
    (h : room < 4 ∨ room - 4 < (fieldAt mem address).size) :
    fieldWalk mem address room = ([], room) := by
  rw [fieldWalk, if_neg (by omega)]

/-- The leading fields up to the first zip64 field that is too short for the
`needed` 64-bit values, and whether there is one.  Later zip64 fields are not
consulted. -/
def acceptedFields : Nat → List ExtraField → List ExtraField × Bool
  | _, [] => ([], false)
  | needed, f :: fs =>
      if f.tag = zip64ExtraID ∧ f.size < 8 * needed then ([f], true)
      else
        let r := acceptedFields (if f.tag = zip64ExtraID then 0 else needed) fs
        (f :: r.1, r.2)

/-- The attribute at `address` is a triple of times. -/
def IsNtfsTimes (mem : Memory) (address : Nat) : Prop :=
  loadLe mem address 2 = 1 ∧ loadLe mem (address + 2) 2 = 24

instance (mem : Memory) (address : Nat) : Decidable (IsNtfsTimes mem address) :=
  inferInstanceAs (Decidable (_ ∧ _))

/-- The attributes of an NTFS field, read one after the other as long as they
are times, end before `last`. -/
def NtfsTimesEnd (mem : Memory) (last : Nat) (f : ExtraField) : Prop :=
  f.size < 32 ∨
    ∃ k, f.data + 8 + 28 * k ≤ last ∧ ¬IsNtfsTimes mem (f.data + 4 + 28 * k)

/-- With `room` bytes behind the last field, a count that is too large by
`2 * total` does not produce another field. -/
def StopsAtTail (mem : Memory) (last room total : Nat) : Prop :=
  if room < 4 then room + 2 * total < 4
  else room - 4 + 2 * total < (fieldAt mem (last - room)).size

/-- The condition on the bytes of the area under which the walk touches what it
should. -/
def WalkSafe (mem : Memory) (last needed total : Nat)
    (w : List ExtraField × Nat) : Prop :=
  (∀ f ∈ (acceptedFields needed w.1).1,
      f.tag = ntfsExtraID → NtfsTimesEnd mem last f) ∧
    ((acceptedFields needed w.1).2 = true ∨
      StopsAtTail mem last w.2 (total + (w.1.map ExtraField.size).sum))

/-- The walk visited the given fields: all of them, or those up to one for
which the header is rejected. -/
def Visits (r : FieldResult) (before fields : List ExtraField) : Prop :=
  match r with
  | .next s => s.visited = before ++ fields
  | .rejected s => ∃ front, s.visited = before ++ front ∧ front <+: fields

theorem Visits.of_cons {r : FieldResult} {before middle : List ExtraField}
    {f : ExtraField} {fs : List ExtraField} (h : Visits r middle fs)
    (hmiddle : middle = before ++ [f]) : Visits r before (f :: fs) := by
  subst hmiddle
  cases r with
  | next s =>
      have hs : s.visited = before ++ [f] ++ fs := h
      simpa [Visits] using hs
  | rejected s =>
      obtain ⟨front, hs, hfront⟩ := h
      exact ⟨f :: front, by simpa using hs, by simpa using hfront⟩

theorem Visits.tail {r : FieldResult} {before : List ExtraField}
    {f : ExtraField} {fs : List ExtraField} (h : Visits r before (f :: fs))
    (hvisited : before ++ [f] <+: r.state.visited) :
    Visits r (before ++ [f]) fs := by
  cases r with
  | next s =>
      have hs : s.visited = before ++ f :: fs := h
      simpa [Visits] using hs
  | rejected s =>
      obtain ⟨front, hs, hfront⟩ := h
      rw [FieldResult.state, hs, List.prefix_append_right_inj] at hvisited
      obtain ⟨front', rfl⟩ := hvisited
      exact ⟨front', by simpa using hs, by simpa using hfront⟩

theorem Visits.visited_eq_of_nil {r : FieldResult} {before : List ExtraField}
    (h : Visits r before []) : r.state.visited = before := by
  cases r with
  | next s => simpa [Visits] using h
  | rejected s =>
      obtain ⟨front, hs, hfront⟩ := h
      rw [List.prefix_nil] at hfront
      simpa [hfront] using hs

namespace DirectoryHeader

/-- The fields of the extra area, and the number of bytes behind them. -/
def fields (h : DirectoryHeader) : List ExtraField × Nat :=
  fieldWalk h.mem h.extraStart h.extraLen.toNat

/-- The walk terminates, reads only bytes of the extra area and visits exactly
its fields; a rejected header is left at the field that is at fault. -/
def WalkContract (h : DirectoryHeader) : Prop :=
  ∃ fuel r, h.walkExtra fuel = some r ∧
    (∀ span ∈ r.state.reads, span.Within h.extraStart h.extraEnd) ∧
    Visits r [] h.fields.1

end DirectoryHeader

/-! ## What a handler does -/

/-- From `s` to `s'` nothing was visited, and the reads in between lie in the
given range. -/
structure Reads (s s' : ExtraState) (first last : Nat) : Prop where
  visited : s'.visited = s.visited
  reads : ∃ spans, s'.reads = s.reads ++ spans ∧
    ∀ span ∈ spans, span.Within first last

namespace Reads

theorem refl (s : ExtraState) (first last : Nat) : Reads s s first last :=
  ⟨rfl, [], by simp, by simp⟩

theorem trans {s s' s'' : ExtraState} {first last : Nat}
    (h : Reads s s' first last) (h' : Reads s' s'' first last) :
    Reads s s'' first last := by
  obtain ⟨spans, hreads, hin⟩ := h.reads
  obtain ⟨spans', hreads', hin'⟩ := h'.reads
  refine ⟨h'.visited.trans h.visited, spans ++ spans', ?_, ?_⟩
  · rw [hreads', hreads, List.append_assoc]
  · intro span hspan
    rcases List.mem_append.mp hspan with hspan | hspan
    · exact hin span hspan
    · exact hin' span hspan

theorem mono {s s' : ExtraState} {first last first' last' : Nat}
    (h : Reads s s' first last)
    (hfirst : first' ≤ first) (hlast : last ≤ last') :
    Reads s s' first' last' := by
  obtain ⟨spans, hreads, hin⟩ := h.reads
  exact ⟨h.visited, spans, hreads,
    fun span hspan => (hin span hspan).mono hfirst hlast⟩

end Reads

/-- Moreover, the number of missing 64-bit values is the same. -/
structure Touches (s s' : ExtraState) (first last : Nat) : Prop
    extends Reads s s' first last where
  needed : s'.needed = s.needed

namespace Touches

theorem refl (s : ExtraState) (first last : Nat) : Touches s s first last :=
  ⟨Reads.refl s first last, rfl⟩

theorem mono {s s' : ExtraState} {first last first' last' : Nat}
    (h : Touches s s' first last)
    (hfirst : first' ≤ first) (hlast : last ≤ last') :
    Touches s s' first' last' :=
  ⟨h.toReads.mono hfirst hlast, h.needed⟩

theorem trans {s s' s'' : ExtraState} {first last : Nat}
    (h : Touches s s' first last) (h' : Touches s' s'' first last) :
    Touches s s'' first last :=
  ⟨h.toReads.trans h'.toReads, h'.needed.trans h.needed⟩

end Touches

theorem handleUnix_touches (mem : Memory) (tag : Nat) (fb : Reader)
    (s : ExtraState) :
    Touches s (handleUnix mem tag fb s) fb.data
      (fb.data + fb.size + if 12 < fb.size then 4 else 0) := by
  unfold handleUnix
  split
  · exact Touches.refl _ _ _
  · have hdiscard : fb.discard 4 = ⟨fb.data + 4, fb.size - 4⟩ :=
      Reader.discard_of_lt (by omega)
    simp only [hdiscard, Reader.read]
    by_cases hlink : 12 < fb.size
    · have hrest : Reader.discard 4 ⟨fb.data + 4 + 4, fb.size - 4 - 4⟩ =
          ⟨fb.data + 4 + 4 + 4, fb.size - 4 - 4 - 4⟩ :=
        Reader.discard_of_lt (by dsimp only; omega)
      simp only [hrest, hlink, if_true]
      have hname := cstringSpan_within mem (fb.data + 4 + 4 + 4 + 4)
        (fb.size - 4 - 4 - 4)
      split
      · refine ⟨⟨rfl, [⟨fb.data + 4, 4⟩, _], List.append_assoc .., ?_⟩, rfl⟩
        simp [Span.Within] at hname ⊢
        omega
      · refine ⟨⟨rfl, [⟨fb.data + 4, 4⟩], rfl, ?_⟩, rfl⟩
        simp [Span.Within]
        omega
    · have hrest : Reader.discard 4 ⟨fb.data + 4 + 4, fb.size - 4 - 4⟩ =
          ⟨0, 0⟩ :=
        Reader.discard_of_le (by dsimp only; omega)
      simp only [hrest, Nat.lt_irrefl, false_and, if_false]
      refine ⟨⟨rfl, [⟨fb.data + 4, 4⟩], rfl, ?_⟩, rfl⟩
      simp [Span.Within]
      omega

theorem handleExtTime_touches (mem : Memory) (fb : Reader) (s : ExtraState) :
    Touches s (handleExtTime mem fb s) fb.data (fb.data + fb.size) := by
  unfold handleExtTime
  split
  · exact Touches.refl _ _ _
  · by_cases hflag : (fb.pick mem).1 &&& 0x1 ≠ 0
    · simp only [if_pos hflag]
      refine ⟨⟨rfl, [⟨fb.data, 1⟩, ⟨fb.data + 1, 4⟩], List.append_assoc .., ?_⟩, rfl⟩
      simp [Span.Within]
      omega
    · simp only [if_neg hflag]
      refine ⟨⟨rfl, [⟨fb.data, 1⟩], rfl, ?_⟩, rfl⟩
      simp [Span.Within]
      omega

theorem handleUnicodePath_touches (mem : Memory) (fb : Reader)
    (s : ExtraState) :
    Touches s (handleUnicodePath mem fb s) fb.data (fb.data + fb.size) := by
  unfold handleUnicodePath
  split
  · exact Touches.refl _ _ _
  · simp only [Reader.pick, Reader.read]
    have htext := cstringSpan_within mem (fb.data + 1 + 4) (fb.size - 1 - 4)
    refine ⟨⟨rfl, [⟨fb.data, 1⟩, ⟨fb.data + 1, 4⟩, _], by simp; rfl, ?_⟩, rfl⟩
    simp [Span.Within] at htext ⊢
    omega

theorem handleUnicodeComment_touches (mem : Memory) (fb : Reader)
    (s : ExtraState) :
    Touches s (handleUnicodeComment mem fb s) fb.data (fb.data + fb.size) := by
  unfold handleUnicodeComment
  split
  · exact Touches.refl _ _ _
  · simp only [Reader.pick, Reader.read]
    have htext := cstringSpan_within mem (fb.data + 1 + 4) (fb.size - 1 - 4)
    refine ⟨⟨rfl, [⟨fb.data, 1⟩, ⟨fb.data + 1, 4⟩, _], by simp; rfl, ?_⟩, rfl⟩
    simp [Span.Within] at htext ⊢
    omega

theorem handleWinzipAes_touches (mem : Memory) (fb : Reader) (s : ExtraState) :
    Touches s (handleWinzipAes mem fb s) fb.data (fb.data + fb.size) := by
  unfold handleWinzipAes
  split
  · exact Touches.refl _ _ _
  · have hvendor : Reader.discard 2 ⟨fb.data + 2, fb.size - 2⟩ =
        ⟨fb.data + 2 + 2, fb.size - 2 - 2⟩ :=
      Reader.discard_of_lt (by dsimp only; omega)
    simp only [Reader.pick, Reader.read, hvendor]
    refine ⟨⟨rfl, [⟨fb.data, 2⟩, ⟨fb.data + 2 + 2, 1⟩,
      ⟨fb.data + 2 + 2 + 1, 2⟩], by simp, ?_⟩, rfl⟩
    simp [Span.Within]
    omega

/-! ## The zip64 handler -/

theorem zip64Value_eq_none_iff {mem : Memory} {need : Bool} {old : UInt64}
    {fb : Reader} :
    zip64Value mem need old fb = none ↔ fb.size < 8 * need.toNat := by
  cases need <;> simp [zip64Value]

theorem zip64Value_some {mem : Memory} {need : Bool} {old : UInt64}
    {fb fb' : Reader} {value : UInt64} {spans : List Span}
    (h : zip64Value mem need old fb = some (value, fb', spans)) :
    fb' = ⟨fb.data + 8 * need.toNat, fb.size - 8 * need.toNat⟩ ∧
      8 * need.toNat ≤ fb.size ∧
      ∀ span ∈ spans, span.Within fb.data (fb.data + 8 * need.toNat) := by
  cases need with
  | false =>
      simp only [zip64Value, Bool.false_eq_true, if_false, Option.some.injEq,
        Prod.mk.injEq] at h
      obtain ⟨-, rfl, rfl⟩ := h
      simp
  | true =>
      simp only [zip64Value, if_true] at h
      split at h
      · contradiction
      · simp only [Option.some.injEq, Prod.mk.injEq, Reader.read] at h
        obtain ⟨-, rfl, rfl⟩ := h
        simp [Span.Within]
        omega

/-- A zip64 field is rejected when it is too short for the values needed, and
afterwards no value is needed. -/
theorem handleZip64_spec (mem : Memory) (fb : Reader) (s : ExtraState) :
    Reads s (handleZip64 mem fb s).state fb.data (fb.data + fb.size) ∧
      ((∃ s', handleZip64 mem fb s = .rejected s') ∧
          fb.size < 8 * s.needed ∨
        (∃ s', handleZip64 mem fb s = .next s' ∧ s'.needed = 0) ∧
          8 * s.needed ≤ fb.size) := by
  unfold handleZip64
  cases h₁ : zip64Value mem s.needUSize s.file.uncompressedSize fb with
  | none =>
      rw [zip64Value_eq_none_iff] at h₁
      refine ⟨⟨rfl, [], (List.append_nil _).symm, by simp⟩,
        .inl ⟨⟨_, rfl⟩, ?_⟩⟩
      simp only [ExtraState.needed]
      omega
  | some v₁ =>
      obtain ⟨usize, fb₁, spans₁⟩ := v₁
      obtain ⟨rfl, hle₁, hin₁⟩ := zip64Value_some h₁
      dsimp only
      cases h₂ : zip64Value mem s.needSize s.file.compressedSize
          ⟨fb.data + 8 * s.needUSize.toNat,
            fb.size - 8 * s.needUSize.toNat⟩ with
      | none =>
          rw [zip64Value_eq_none_iff] at h₂
          refine ⟨⟨rfl, spans₁, rfl, ?_⟩, .inl ⟨⟨_, rfl⟩, ?_⟩⟩
          · intro span hspan
            exact (hin₁ span hspan).mono le_rfl (by omega)
          · simp only [ExtraState.needed] at h₂ ⊢
            omega
      | some v₂ =>
          obtain ⟨csize, fb₂, spans₂⟩ := v₂
          obtain ⟨rfl, hle₂, hin₂⟩ := zip64Value_some h₂
          dsimp only at hle₂ hin₂ ⊢
          have hboth : ∀ span ∈ spans₁ ++ spans₂,
              span.Within fb.data (fb.data + fb.size) := by
            intro span hspan
            rcases List.mem_append.mp hspan with hspan | hspan
            · exact (hin₁ span hspan).mono le_rfl (by omega)
            · exact (hin₂ span hspan).mono (by omega) (by omega)
          cases h₃ : zip64Value mem s.needOffset s.file.position
              ⟨fb.data + 8 * s.needUSize.toNat + 8 * s.needSize.toNat,
                fb.size - 8 * s.needUSize.toNat - 8 * s.needSize.toNat⟩ with
          | none =>
              rw [zip64Value_eq_none_iff] at h₃
              refine ⟨⟨rfl, spans₁ ++ spans₂, List.append_assoc .., hboth⟩,
                .inl ⟨⟨_, rfl⟩, ?_⟩⟩
              simp only [ExtraState.needed] at h₃ ⊢
              omega
          | some v₃ =>
              obtain ⟨offset, fb₃, spans₃⟩ := v₃
              obtain ⟨-, hle₃, hin₃⟩ := zip64Value_some h₃
              dsimp only at hle₃ hin₃
              refine ⟨⟨rfl, (spans₁ ++ spans₂) ++ spans₃, ?_, ?_⟩,
                .inr ⟨⟨_, rfl, rfl⟩, ?_⟩⟩
              · simp
              · intro span hspan
                rcases List.mem_append.mp hspan with hspan | hspan
                · exact hboth span hspan
                · exact (hin₃ span hspan).mono (by omega) (by omega)
              · simp only [ExtraState.needed]
                omega

/-! ## The NTFS handler -/

/-- The state after the tag and the size at `address` were read. -/
def readHeader (s : ExtraState) (address : Nat) : ExtraState :=
  (s.log ⟨address, 2⟩).log ⟨address + 2, 2⟩

theorem readHeader_touches (s : ExtraState) {address last : Nat}
    (h : address + 4 ≤ last) :
    Touches s (readHeader s address) address last := by
  refine ⟨⟨rfl, [⟨address, 2⟩, ⟨address + 2, 2⟩], List.append_assoc .., ?_⟩,
    rfl⟩
  simp [Span.Within]
  omega

/-- The state after the record of times at `address`. -/
def readTimes (mem : Memory) (s : ExtraState) (address : Nat) : ExtraState :=
  { (readHeader s address).log ⟨address + 4, 8⟩ with
    modified := Time.fromWindowsPreciseTime
      (UInt64.ofNat (loadLe mem (address + 4) 8)) }

theorem readTimes_touches (mem : Memory) (s : ExtraState) {address last : Nat}
    (h : address + 12 ≤ last) :
    Touches s (readTimes mem s address) address last := by
  refine ⟨⟨rfl, [⟨address, 2⟩, ⟨address + 2, 2⟩, ⟨address + 4, 8⟩],
    by simp [readTimes, readHeader], ?_⟩, rfl⟩
  simp [Span.Within]
  omega

theorem ntfsLoop_succ (mem : Memory) (fuel : Nat) (fb : Reader)
    (s : ExtraState) :
    ntfsLoop Reader.subSize mem (fuel + 1) fb s =
      if 4 ≤ fb.size then
        if fb.size - 2 - 2 < loadLe mem (fb.data + 2) 2 then
          some (readHeader s fb.data)
        else if loadLe mem fb.data 2 ≠ 1 ∨ loadLe mem (fb.data + 2) 2 ≠ 24 then
          some (readHeader s fb.data)
        else
          ntfsLoop Reader.subSize mem fuel
            ⟨fb.data + 4 + loadLe mem (fb.data + 2) 2,
              fb.size - 2 - 2 + loadLe mem (fb.data + 2) 2⟩
            (readTimes mem s fb.data)
      else some s :=
  rfl

theorem ntfsLoop_other {mem : Memory} {fb : Reader} {s : ExtraState}
    (fuel : Nat) (hsize : 4 ≤ fb.size) (h : ¬IsNtfsTimes mem fb.data) :
    ntfsLoop Reader.subSize mem (fuel + 1) fb s =
      some (readHeader s fb.data) := by
  rw [ntfsLoop_succ, if_pos hsize]
  split
  · rfl
  · rw [if_pos (not_and_or.mp h)]

theorem ntfsLoop_times_short {mem : Memory} {fb : Reader} {s : ExtraState}
    (fuel : Nat) (hsize : 4 ≤ fb.size) (hshort : fb.size < 28)
    (h : IsNtfsTimes mem fb.data) :
    ntfsLoop Reader.subSize mem (fuel + 1) fb s =
      some (readHeader s fb.data) := by
  rw [ntfsLoop_succ, if_pos hsize, if_pos (by rw [h.2]; omega)]

/-- After a record of times the count has grown by twenty. -/
theorem ntfsLoop_times {mem : Memory} {fb : Reader} {s : ExtraState}
    (fuel : Nat) (hsize : 28 ≤ fb.size) (h : IsNtfsTimes mem fb.data) :
    ntfsLoop Reader.subSize mem (fuel + 1) fb s =
      ntfsLoop Reader.subSize mem fuel ⟨fb.data + 28, fb.size + 20⟩
        (readTimes mem s fb.data) := by
  have hrest : fb.size - 2 - 2 + 24 = fb.size + 20 := by omega
  rw [ntfsLoop_succ, if_pos (by omega), h.1, h.2, if_neg (by omega),
    if_neg (by simp), hrest]

/-- The loop runs on while the records are times, and ends at the first other
one. -/
theorem ntfsLoop_of_stop {mem : Memory} {last k : Nat} :
    ∀ (fb : Reader) (s : ExtraState), 28 ≤ fb.size →
      fb.data + 4 + 28 * k ≤ last → ¬IsNtfsTimes mem (fb.data + 28 * k) →
      ∃ s', (∀ fuel, k < fuel →
          ntfsLoop Reader.subSize mem fuel fb s = some s') ∧
        Touches s s' fb.data last := by
  induction k with
  | zero =>
      intro fb s hsize hlast hstop
      refine ⟨readHeader s fb.data, fun fuel hfuel => ?_,
        readHeader_touches s (by omega)⟩
      obtain ⟨fuel, rfl⟩ : ∃ f, fuel = f + 1 := ⟨fuel - 1, by omega⟩
      exact ntfsLoop_other fuel (by omega) hstop
  | succ k ih =>
      intro fb s hsize hlast hstop
      by_cases hhere : IsNtfsTimes mem fb.data
      · have hnext : fb.data + 28 * (k + 1) = fb.data + 28 + 28 * k := by
          omega
        rw [hnext] at hstop
        obtain ⟨s', hrun, htouches⟩ :=
          ih ⟨fb.data + 28, fb.size + 20⟩ (readTimes mem s fb.data)
            (by dsimp only; omega) (by dsimp only; omega) hstop
        refine ⟨s', fun fuel hfuel => ?_, ?_⟩
        · obtain ⟨fuel, rfl⟩ : ∃ f, fuel = f + 1 := ⟨fuel - 1, by omega⟩
          rw [ntfsLoop_times fuel hsize hhere, hrun fuel (by omega)]
        · exact (readTimes_touches mem s (by omega)).trans
            (htouches.mono (by dsimp only; omega) le_rfl)
      · refine ⟨readHeader s fb.data, fun fuel hfuel => ?_,
          readHeader_touches s (by omega)⟩
        obtain ⟨fuel, rfl⟩ : ∃ f, fuel = f + 1 := ⟨fuel - 1, by omega⟩
        exact ntfsLoop_other fuel (by omega) hhere

theorem ntfsLoop_extends {mem : Memory} :
    ∀ {fuel : Nat} {fb : Reader} {s s' : ExtraState},
      ntfsLoop Reader.subSize mem fuel fb s = some s' →
      s'.visited = s.visited ∧ s'.needed = s.needed ∧
        s.reads <+: s'.reads := by
  intro fuel
  induction fuel with
  | zero =>
      intro fb s s' h
      contradiction
  | succ fuel ih =>
      intro fb s s' h
      have hheader : s.reads <+: (readHeader s fb.data).reads :=
        ⟨_, (List.append_assoc ..).symm⟩
      rw [ntfsLoop_succ] at h
      split at h
      · split at h
        · cases h
          exact ⟨rfl, rfl, hheader⟩
        · split at h
          · cases h
            exact ⟨rfl, rfl, hheader⟩
          · obtain ⟨hvisited, hneeded, hreads⟩ := ih h
            exact ⟨hvisited, hneeded,
              (hheader.trans (List.prefix_append _ _)).trans hreads⟩
      · cases h
        exact ⟨rfl, rfl, List.prefix_rfl⟩

/-- If the loop ends and has read nothing behind `last`, the records of times
end before it. -/
theorem exists_stop_of_ntfsLoop {mem : Memory} {first last : Nat} :
    ∀ {fuel : Nat} {fb : Reader} {s s' : ExtraState}, 28 ≤ fb.size →
      ntfsLoop Reader.subSize mem fuel fb s = some s' →
      (∀ span ∈ s'.reads, span.Within first last) →
      ∃ k, fb.data + 4 + 28 * k ≤ last ∧
        ¬IsNtfsTimes mem (fb.data + 28 * k) := by
  intro fuel
  induction fuel with
  | zero =>
      intro fb s s' _ h
      contradiction
  | succ fuel ih =>
      intro fb s s' hsize h hin
      by_cases htimes : IsNtfsTimes mem fb.data
      · rw [ntfsLoop_times fuel hsize htimes] at h
        obtain ⟨k, hlast, hstop⟩ := ih (by dsimp only; omega) h hin
        refine ⟨k + 1, ?_, ?_⟩
        · dsimp only at hlast
          omega
        · have hnext : fb.data + 28 * (k + 1) = fb.data + 28 + 28 * k := by
            omega
          rw [hnext]
          exact hstop
      · rw [ntfsLoop_other fuel (by omega) htimes, Option.some.injEq] at h
        subst h
        have hheader := hin ⟨fb.data + 2, 2⟩ (by simp [readHeader])
        refine ⟨0, ?_, htimes⟩
        have := hheader.2
        dsimp only at this
        omega

/-- An NTFS field whose records of times end before `last`. -/
theorem handleNtfs_of_end {mem : Memory} {last : Nat} {f : ExtraField}
    (hend : NtfsTimesEnd mem last f) (hlast : f.data + f.size ≤ last)
    (s : ExtraState) :
    ∃ enough s', (∀ fuel, enough ≤ fuel →
        handleNtfs Reader.subSize mem fuel ⟨f.data, f.size⟩ s = some s') ∧
      Touches s s' f.data last := by
  by_cases hsmall : f.size < 4
  · refine ⟨0, s, fun fuel _ => ?_, Touches.refl _ _ _⟩
    rw [handleNtfs, if_pos hsmall]
  have hrun : ∀ fuel, handleNtfs Reader.subSize mem fuel
      ⟨f.data, f.size⟩ s = ntfsLoop Reader.subSize mem fuel
        (Reader.discard 4 ⟨f.data, f.size⟩) s := by
    intro fuel
    rw [handleNtfs, if_neg hsmall]
  by_cases hnone : f.size < 8
  · -- No attribute fits.
    refine ⟨1, s, fun fuel hfuel => ?_, Touches.refl _ _ _⟩
    obtain ⟨fuel, rfl⟩ : ∃ n, fuel = n + 1 := ⟨fuel - 1, by omega⟩
    rw [hrun, ntfsLoop_succ, if_neg]
    by_cases hfour : f.size = 4
    · rw [Reader.discard_of_le (by dsimp only; omega)]
      simp
    · rw [Reader.discard_of_lt (by dsimp only; omega)]
      dsimp only
      omega
  have hstart : Reader.discard 4 ⟨f.data, f.size⟩ =
      ⟨f.data + 4, f.size - 4⟩ :=
    Reader.discard_of_lt (by dsimp only; omega)
  by_cases hshort : f.size < 32
  · -- One header is read, and it lies inside the field.
    refine ⟨1, readHeader s (f.data + 4), fun fuel hfuel => ?_,
      (readHeader_touches s (by omega)).mono (by omega) le_rfl⟩
    obtain ⟨fuel, rfl⟩ : ∃ n, fuel = n + 1 := ⟨fuel - 1, by omega⟩
    rw [hrun, hstart]
    by_cases htimes : IsNtfsTimes mem (f.data + 4)
    · exact ntfsLoop_times_short fuel (by dsimp only; omega)
        (by dsimp only; omega) htimes
    · exact ntfsLoop_other fuel (by dsimp only; omega) htimes
  · obtain hlt | ⟨k, hk, hstop⟩ := hend
    · exact absurd hlt hshort
    · obtain ⟨s', hloop, htouches⟩ :=
        ntfsLoop_of_stop ⟨f.data + 4, f.size - 4⟩ s (by dsimp only; omega)
          (by omega : f.data + 4 + 4 + 28 * k ≤ last) hstop
      refine ⟨k + 1, s', fun fuel hfuel => ?_,
        htouches.mono (by dsimp only; omega) le_rfl⟩
      rw [hrun, hstart, hloop fuel hfuel]

theorem handleNtfs_extends {mem : Memory} {fuel : Nat} {fb : Reader}
    {s s' : ExtraState}
    (h : handleNtfs Reader.subSize mem fuel fb s = some s') :
    s'.visited = s.visited ∧ s'.needed = s.needed ∧
      s.reads <+: s'.reads := by
  rw [handleNtfs] at h
  split at h
  · cases h
    exact ⟨rfl, rfl, List.prefix_rfl⟩
  · exact ntfsLoop_extends h

theorem ntfsTimesEnd_of_handleNtfs {mem : Memory} {fuel first last : Nat}
    {f : ExtraField} {s s' : ExtraState}
    (h : handleNtfs Reader.subSize mem fuel ⟨f.data, f.size⟩ s = some s')
    (hin : ∀ span ∈ s'.reads, span.Within first last) :
    NtfsTimesEnd mem last f := by
  by_cases hshort : f.size < 32
  · exact .inl hshort
  · rw [handleNtfs, if_neg (by dsimp only; omega),
      Reader.discard_of_lt (by dsimp only; omega)] at h
    obtain ⟨k, hk, hstop⟩ :=
      exists_stop_of_ntfsLoop (by dsimp only; omega) h hin
    refine .inr ⟨k, ?_, hstop⟩
    dsimp only at hk
    omega

/-! ## One field -/

/-- Fields other than zip64 and NTFS ones are always accepted, and at most four
bytes behind them are read. -/
theorem handleField_other (mem : Memory) {f : ExtraField}
    (hzip64 : f.tag ≠ zip64ExtraID) (hntfs : f.tag ≠ ntfsExtraID)
    (s : ExtraState) :
    ∃ s', (∀ fuel,
        handleField Reader.subSize mem fuel f s = some (.next s')) ∧
      Touches s s' f.data
        (f.data + f.size + if 12 < f.size then 4 else 0) := by
  have hwide : f.data + f.size ≤
      f.data + f.size + if 12 < f.size then 4 else 0 := by omega
  simp only [handleField, if_neg hzip64, if_neg hntfs]
  split
  · exact ⟨_, fun _ => rfl, handleUnix_touches mem f.tag _ s⟩
  split
  · exact ⟨_, fun _ => rfl,
      (handleExtTime_touches mem _ s).mono le_rfl hwide⟩
  split
  · exact ⟨_, fun _ => rfl,
      (handleUnicodePath_touches mem _ s).mono le_rfl hwide⟩
  split
  · exact ⟨_, fun _ => rfl,
      (handleUnicodeComment_touches mem _ s).mono le_rfl hwide⟩
  split
  · exact ⟨_, fun _ => rfl,
      (handleWinzipAes_touches mem _ s).mono le_rfl hwide⟩
  · exact ⟨s, fun _ => rfl, Touches.refl _ _ _⟩

/-- The handler of `f` gives up exactly on a zip64 field that is too short. -/
def FieldOutcome (f : ExtraField) (s : ExtraState) (r : FieldResult) : Prop :=
  (∃ s', r = .rejected s') ∧ (f.tag = zip64ExtraID ∧ f.size < 8 * s.needed) ∨
    (∃ s', r = .next s' ∧
        s'.needed = if f.tag = zip64ExtraID then 0 else s.needed) ∧
      ¬(f.tag = zip64ExtraID ∧ f.size < 8 * s.needed)

theorem handleZip64_outcome (mem : Memory) {f : ExtraField}
    (htag : f.tag = zip64ExtraID) (s : ExtraState) :
    FieldOutcome f s (handleZip64 mem ⟨f.data, f.size⟩ s) := by
  obtain ⟨-, ⟨hr, hshort⟩ | ⟨hr, hlong⟩⟩ :=
    handleZip64_spec mem ⟨f.data, f.size⟩ s
  · exact .inl ⟨hr, htag, hshort⟩
  · refine .inr ⟨?_, fun h => absurd h.2 (Nat.not_lt.mpr hlong)⟩
    rw [if_pos htag]
    exact hr

theorem outcome_next {f : ExtraField} {s s' : ExtraState}
    (htag : f.tag ≠ zip64ExtraID) (hneeded : s'.needed = s.needed) :
    FieldOutcome f s (.next s') := by
  refine .inr ⟨⟨s', rfl, ?_⟩, fun h => htag h.1⟩
  rw [if_neg htag, hneeded]

/-- A field with enough room behind it is handled within `last`. -/
theorem handleField_of_room {mem : Memory} {last : Nat} {f : ExtraField}
    (hroom : f.data + f.size ≤ last)
    (hlink : f.tag ≠ zip64ExtraID → 12 < f.size →
      f.data + f.size + 4 ≤ last)
    (hend : f.tag = ntfsExtraID → NtfsTimesEnd mem last f) (s : ExtraState) :
    ∃ enough r, (∀ fuel, enough ≤ fuel →
        handleField Reader.subSize mem fuel f s = some r) ∧
      Reads s r.state f.data last ∧ FieldOutcome f s r := by
  by_cases hzip64 : f.tag = zip64ExtraID
  · refine ⟨0, handleZip64 mem ⟨f.data, f.size⟩ s, fun fuel _ => ?_, ?_,
      handleZip64_outcome mem hzip64 s⟩
    · simp only [handleField, if_pos hzip64]
    · exact (handleZip64_spec mem _ s).1.mono le_rfl hroom
  by_cases hntfs : f.tag = ntfsExtraID
  · obtain ⟨enough, s', hrun, htouches⟩ :=
      handleNtfs_of_end (hend hntfs) hroom s
    refine ⟨enough, .next s', fun fuel hfuel => ?_, htouches.toReads,
      outcome_next hzip64 htouches.needed⟩
    simp only [handleField, if_neg hzip64, if_pos hntfs, hrun fuel hfuel,
      Option.map_some]
  · obtain ⟨s', hs', htouches⟩ := handleField_other mem hzip64 hntfs s
    refine ⟨0, .next s', fun fuel _ => hs' fuel,
      htouches.toReads.mono le_rfl ?_, outcome_next hzip64 htouches.needed⟩
    have := hlink hzip64
    split <;> omega

theorem handleField_inv {mem : Memory} {fuel : Nat} {f : ExtraField}
    {s : ExtraState} {r : FieldResult}
    (h : handleField Reader.subSize mem fuel f s = some r) :
    r.state.visited = s.visited ∧ s.reads <+: r.state.reads ∧
      FieldOutcome f s r ∧
      ∀ first last, (∀ span ∈ r.state.reads, span.Within first last) →
        f.tag = ntfsExtraID → NtfsTimesEnd mem last f := by
  by_cases hzip64 : f.tag = zip64ExtraID
  · simp only [handleField, if_pos hzip64, Option.some.injEq] at h
    subst h
    obtain ⟨hreads, -⟩ := handleZip64_spec mem ⟨f.data, f.size⟩ s
    obtain ⟨spans, hspans, -⟩ := hreads.reads
    refine ⟨hreads.visited, ⟨spans, hspans.symm⟩,
      handleZip64_outcome mem hzip64 s, fun _ _ _ hntfs => ?_⟩
    rw [hzip64] at hntfs
    contradiction
  by_cases hntfs : f.tag = ntfsExtraID
  · simp only [handleField, if_neg hzip64, if_pos hntfs,
      Option.map_eq_some_iff] at h
    obtain ⟨s', hs', rfl⟩ := h
    obtain ⟨hvisited, hneeded, hreads⟩ := handleNtfs_extends hs'
    exact ⟨hvisited, hreads, outcome_next hzip64 hneeded,
      fun first last hin _ => ntfsTimesEnd_of_handleNtfs hs' hin⟩
  · obtain ⟨s', hs', htouches⟩ := handleField_other mem hzip64 hntfs s
    rw [hs' fuel, Option.some.injEq] at h
    subst h
    obtain ⟨spans, hspans, -⟩ := htouches.reads
    exact ⟨htouches.visited, ⟨spans, hspans.symm⟩,
      outcome_next hzip64 htouches.needed, fun _ _ _ h => absurd h hntfs⟩

/-! ## The walk -/

/-- The state in which the field at `address` is handled. -/
def enterField (mem : Memory) (s : ExtraState) (address : Nat) : ExtraState :=
  { readHeader s address with
    visited := s.visited ++ [fieldAt mem address] }

theorem extraLoop_succ (mem : Memory) (fuel : Nat) (extra : Reader)
    (s : ExtraState) :
    extraLoop Reader.subSize mem (fuel + 1) extra s =
      if 4 ≤ extra.size then
        if extra.size - 2 - 2 < (fieldAt mem extra.data).size then
          some (.next (readHeader s extra.data))
        else
          match handleField Reader.subSize mem fuel (fieldAt mem extra.data)
              (enterField mem s extra.data) with
          | none => none
          | some (.rejected s) => some (.rejected s)
          | some (.next s) =>
              extraLoop Reader.subSize mem fuel
                ⟨extra.data + 4 + (fieldAt mem extra.data).size,
                  extra.size - 2 - 2 + (fieldAt mem extra.data).size⟩ s
      else some (.next s) :=
  rfl

theorem walkSafe_nil {mem : Memory} {last needed total room : Nat} :
    WalkSafe mem last needed total ([], room) ↔
      StopsAtTail mem last room total := by
  simp [WalkSafe, acceptedFields]

theorem walkSafe_rejected {mem : Memory} {last needed total room : Nat}
    {f : ExtraField} {fs : List ExtraField}
    (h : f.tag = zip64ExtraID ∧ f.size < 8 * needed) :
    WalkSafe mem last needed total (f :: fs, room) := by
  have hntfs : f.tag ≠ ntfsExtraID := by
    rw [h.1]
    decide
  simp [WalkSafe, acceptedFields, if_pos h, hntfs]

/-- The condition after a field that is not rejected is the condition for the
rest, with the size of the field added to the total. -/
theorem walkSafe_cons {mem : Memory} {last needed total room : Nat}
    {f : ExtraField} {fs : List ExtraField}
    (h : ¬(f.tag = zip64ExtraID ∧ f.size < 8 * needed)) :
    WalkSafe mem last needed total (f :: fs, room) ↔
      (f.tag = ntfsExtraID → NtfsTimesEnd mem last f) ∧
        WalkSafe mem last (if f.tag = zip64ExtraID then 0 else needed)
          (total + f.size) (fs, room) := by
  simp only [WalkSafe, acceptedFields, if_neg h, List.forall_mem_cons,
    List.map_cons, List.sum_cons, Nat.add_assoc, and_assoc]

/-- A long field is followed by at least four bytes: with fewer, the enlarged
count would not stop the walk. -/
theorem four_le_of_walkSafe {mem : Memory} {last needed total address room : Nat}
    {f : ExtraField} (hzip64 : f.tag ≠ zip64ExtraID) (hlong : 12 < f.size)
    (h : WalkSafe mem last needed total
      (f :: (fieldWalk mem address room).1, (fieldWalk mem address room).2)) :
    4 ≤ room := by
  by_contra hshort
  rw [fieldWalk_stop (.inl (by omega)),
    walkSafe_cons (fun h => hzip64 h.1)] at h
  have htail := walkSafe_nil.mp h.2
  rw [StopsAtTail, if_pos (by omega)] at htail
  omega

/-- If the condition holds, the walk ends, stays inside and visits the
fields. -/
theorem extraLoop_of_walkSafe {mem : Memory} {last : Nat} (room : Nat) :
    ∀ (address total : Nat) (s : ExtraState), address + room = last →
      WalkSafe mem last s.needed total (fieldWalk mem address room) →
      ∃ enough r, (∀ fuel, enough ≤ fuel →
          extraLoop Reader.subSize mem fuel ⟨address, room + 2 * total⟩ s =
            some r) ∧
        (∃ spans, r.state.reads = s.reads ++ spans ∧
          ∀ span ∈ spans, span.Within address last) ∧
        Visits r s.visited (fieldWalk mem address room).1 := by
  induction room using Nat.strong_induction_on with
  | _ room ih =>
      intro address total s hlast hsafe
      by_cases hshort : room < 4
      · -- Fewer than four bytes are left.
        rw [fieldWalk_stop (.inl hshort)] at hsafe ⊢
        have htail := walkSafe_nil.mp hsafe
        rw [StopsAtTail, if_pos hshort] at htail
        refine ⟨1, .next s, fun fuel hfuel => ?_, ⟨[], by simp, by simp⟩,
          (List.append_nil _).symm⟩
        obtain ⟨fuel, rfl⟩ : ∃ n, fuel = n + 1 := ⟨fuel - 1, by omega⟩
        rw [extraLoop_succ, if_neg (by dsimp only; omega)]
      by_cases hfits : (fieldAt mem address).size ≤ room - 4
      · rw [fieldWalk_cons (by omega) hfits] at hsafe ⊢
        set f := fieldAt mem address with hf
        set rest := fieldWalk mem (address + 4 + f.size) (room - 4 - f.size)
          with hrest
        have hdata : f.data = address + 4 := rfl
        have hend : f.tag = ntfsExtraID → NtfsTimesEnd mem last f := by
          intro htag
          refine hsafe.1 f ?_ htag
          rw [acceptedFields]
          split <;> simp
        have hlink : f.tag ≠ zip64ExtraID → 12 < f.size →
            f.data + f.size + 4 ≤ last := by
          intro hzip64 hlong
          have := four_le_of_walkSafe hzip64 hlong hsafe
          omega
        obtain ⟨enough, r, hrun, hreads, houtcome⟩ :=
          handleField_of_room (f := f) (by omega) hlink hend
            (enterField mem s address)
        have hloop : ∀ fuel, enough ≤ fuel →
            extraLoop Reader.subSize mem (fuel + 1)
                ⟨address, room + 2 * total⟩ s =
              match some r with
              | none => none
              | some (.rejected s) => some (.rejected s)
              | some (.next s) =>
                  extraLoop Reader.subSize mem fuel
                    ⟨address + 4 + f.size,
                      room + 2 * total - 2 - 2 + f.size⟩ s := by
          intro fuel hfuel
          have hroom : ¬room + 2 * total - 2 - 2 < f.size := by omega
          rw [extraLoop_succ, if_pos (by dsimp only; omega), if_neg hroom,
            ← hrun fuel hfuel]
        obtain ⟨spans₁, hspans₁, hin₁⟩ :=
          (readHeader_touches s (by omega : address + 4 ≤ last)).reads
        obtain ⟨spans₂, hspans₂, hin₂⟩ := hreads.reads
        have hsofar : r.state.reads = s.reads ++ (spans₁ ++ spans₂) := by
          rw [hspans₂, ← List.append_assoc, ← hspans₁]
          rfl
        have hin : ∀ span ∈ spans₁ ++ spans₂, span.Within address last := by
          intro span hspan
          rcases List.mem_append.mp hspan with hspan | hspan
          · exact hin₁ span hspan
          · exact (hin₂ span hspan).mono (by omega) le_rfl
        have hvisited : r.state.visited = s.visited ++ [f] := hreads.visited
        obtain ⟨⟨s', rfl⟩, -⟩ | ⟨⟨s', rfl, hneeded⟩, haccepted⟩ := houtcome
        · refine ⟨enough + 1, .rejected s', fun fuel hfuel => ?_,
            ⟨_, hsofar, hin⟩, [f], hvisited, ?_⟩
          · obtain ⟨fuel, rfl⟩ : ∃ n, fuel = n + 1 := ⟨fuel - 1, by omega⟩
            rw [hloop fuel (by omega)]
          · exact List.prefix_append [f] rest.1
        · have hafter := ((walkSafe_cons haccepted).mp hsafe).2
          obtain ⟨enough', r, hrun', ⟨spans, hspans, hspansIn⟩, hvisits⟩ :=
            ih (room - 4 - f.size) (by omega)
              (address + 4 + f.size) (total + f.size) s' (by omega) (by rw [hneeded]; exact hafter)
          refine ⟨max enough enough' + 1, r, fun fuel hfuel => ?_,
            ⟨spans₁ ++ spans₂ ++ spans, ?_, ?_⟩, ?_⟩
          · obtain ⟨fuel, rfl⟩ : ∃ n, fuel = n + 1 := ⟨fuel - 1, by omega⟩
            rw [hloop fuel (by omega)]
            have hcount : room + 2 * total - 2 - 2 + f.size =
                room - 4 - f.size + 2 * (total + f.size) := by omega
            rw [hcount]
            exact hrun' fuel (by omega)
          · rw [hspans, ← List.append_assoc, ← hsofar]
            rfl
          · intro span hspan
            rcases List.mem_append.mp hspan with hspan | hspan
            · exact hin span hspan
            · exact (hspansIn span hspan).mono (by omega) le_rfl
          · exact hvisits.of_cons hvisited
      · -- The last header declares more than is left.
        rw [fieldWalk_stop (.inr (by omega))] at hsafe ⊢
        have htail := walkSafe_nil.mp hsafe
        have haddress : last - room = address := by omega
        rw [StopsAtTail, if_neg hshort, haddress] at htail
        obtain ⟨spans, hspans, hin⟩ :=
          (readHeader_touches s (by omega : address + 4 ≤ last)).reads
        refine ⟨1, .next (readHeader s address), fun fuel hfuel => ?_,
          ⟨spans, hspans, hin⟩, (List.append_nil _).symm⟩
        obtain ⟨fuel, rfl⟩ : ∃ n, fuel = n + 1 := ⟨fuel - 1, by omega⟩
        rw [extraLoop_succ, if_pos (by dsimp only; omega),
          if_pos (by dsimp only; omega)]

/-- Whatever the walk does, it only adds reads and visited fields. -/
theorem extraLoop_extends {mem : Memory} :
    ∀ {fuel : Nat} {extra : Reader} {s : ExtraState} {r : FieldResult},
      extraLoop Reader.subSize mem fuel extra s = some r →
      s.reads <+: r.state.reads ∧ s.visited <+: r.state.visited := by
  intro fuel
  induction fuel with
  | zero =>
      intro extra s r h
      contradiction
  | succ fuel ih =>
      intro extra s r h
      have hheader : s.reads <+: (readHeader s extra.data).reads :=
        ⟨_, (List.append_assoc ..).symm⟩
      rw [extraLoop_succ] at h
      split at h
      · split at h
        · cases h
          exact ⟨hheader, List.prefix_rfl⟩
        · cases hfield : handleField Reader.subSize mem fuel
              (fieldAt mem extra.data) (enterField mem s extra.data) with
          | none =>
              rw [hfield] at h
              contradiction
          | some r₁ =>
              obtain ⟨hvisited, hreads, -⟩ := handleField_inv hfield
              have hentered : s.visited <+: r₁.state.visited :=
                ⟨[fieldAt mem extra.data], hvisited.symm⟩
              rw [hfield] at h
              cases r₁ with
              | rejected s₁ =>
                  cases h
                  exact ⟨hheader.trans hreads, hentered⟩
              | next s₁ =>
                  obtain ⟨hreads', hvisited'⟩ := ih h
                  exact ⟨(hheader.trans hreads).trans hreads',
                    hentered.trans hvisited'⟩
      · cases h
        exact ⟨List.prefix_rfl, List.prefix_rfl⟩

/-- When the walk does not stop at a header, the field is handled and the walk
ends there or goes on. -/
theorem extraLoop_enter {mem : Memory} {fuel : Nat} {extra : Reader}
    {s : ExtraState} {r : FieldResult}
    (h : extraLoop Reader.subSize mem (fuel + 1) extra s = some r)
    (hsize : 4 ≤ extra.size)
    (hfits : (fieldAt mem extra.data).size ≤ extra.size - 4) :
    ∃ r₁, handleField Reader.subSize mem fuel (fieldAt mem extra.data)
        (enterField mem s extra.data) = some r₁ ∧
      ((∃ s₁, r₁ = .rejected s₁) ∧ r = r₁ ∨
        ∃ s₁, r₁ = .next s₁ ∧
          extraLoop Reader.subSize mem fuel
            ⟨extra.data + 4 + (fieldAt mem extra.data).size,
              extra.size - 4 + (fieldAt mem extra.data).size⟩ s₁ =
            some r) := by
  rw [extraLoop_succ, if_pos hsize, if_neg (by omega)] at h
  cases hfield : handleField Reader.subSize mem fuel
      (fieldAt mem extra.data) (enterField mem s extra.data) with
  | none =>
      rw [hfield] at h
      contradiction
  | some r₁ =>
      rw [hfield] at h
      cases r₁ with
      | rejected s₁ =>
          cases h
          exact ⟨_, rfl, .inl ⟨⟨s₁, rfl⟩, rfl⟩⟩
      | next s₁ => exact ⟨_, rfl, .inr ⟨s₁, rfl, h⟩⟩

/-- What an entered field leaves behind in the result of the walk. -/
theorem extraLoop_entered {mem : Memory} {fuel : Nat} {extra : Reader}
    {s : ExtraState} {r r₁ : FieldResult}
    (hfield : handleField Reader.subSize mem fuel (fieldAt mem extra.data)
      (enterField mem s extra.data) = some r₁)
    (hcase : (∃ s₁, r₁ = .rejected s₁) ∧ r = r₁ ∨
      ∃ s₁, r₁ = .next s₁ ∧
        extraLoop Reader.subSize mem fuel
          ⟨extra.data + 4 + (fieldAt mem extra.data).size,
            extra.size - 4 + (fieldAt mem extra.data).size⟩ s₁ = some r) :
    (readHeader s extra.data).reads <+: r.state.reads ∧
      r₁.state.reads <+: r.state.reads ∧
      s.visited ++ [fieldAt mem extra.data] <+: r.state.visited := by
  obtain ⟨hvisited, hreads, -⟩ := handleField_inv hfield
  have hentered :
      s.visited ++ [fieldAt mem extra.data] <+: r₁.state.visited := by
    rw [hvisited]
    exact List.prefix_rfl
  obtain ⟨-, rfl⟩ | ⟨s₁, rfl, hrest⟩ := hcase
  · exact ⟨hreads, List.prefix_rfl, hentered⟩
  · obtain ⟨hreads', hvisited'⟩ := extraLoop_extends hrest
    exact ⟨List.IsPrefix.trans hreads hreads', hreads',
      hentered.trans hvisited'⟩

theorem header_mem_of_extraLoop {mem : Memory} {fuel : Nat} {extra : Reader}
    {s : ExtraState} {r : FieldResult}
    (h : extraLoop Reader.subSize mem (fuel + 1) extra s = some r)
    (hsize : 4 ≤ extra.size) :
    ⟨extra.data + 2, 2⟩ ∈ r.state.reads := by
  have hheader : ⟨extra.data + 2, 2⟩ ∈ (readHeader s extra.data).reads := by
    simp [readHeader]
  by_cases hfits : (fieldAt mem extra.data).size ≤ extra.size - 4
  · obtain ⟨r₁, hfield, hcase⟩ := extraLoop_enter h hsize hfits
    exact (extraLoop_entered hfield hcase).1.subset hheader
  · rw [extraLoop_succ, if_pos hsize, if_pos (by omega)] at h
    cases h
    exact hheader

/-- If the walk ends, stays inside and visits the fields, the condition
holds. -/
theorem walkSafe_of_extraLoop {mem : Memory} {first last : Nat} :
    ∀ {fuel : Nat} (address room total : Nat) (s : ExtraState)
      {r : FieldResult},
      address + room = last →
      extraLoop Reader.subSize mem fuel ⟨address, room + 2 * total⟩ s =
        some r →
      (∀ span ∈ r.state.reads, span.Within first last) →
      Visits r s.visited (fieldWalk mem address room).1 →
      WalkSafe mem last s.needed total (fieldWalk mem address room) := by
  intro fuel
  induction fuel with
  | zero =>
      intro address room total s r _ h
      contradiction
  | succ fuel ih =>
      intro address room total s r hlast h hin hvisits
      by_cases hshort : room < 4
      · -- Reading another header would leave the area.
        rw [fieldWalk_stop (.inl hshort), walkSafe_nil, StopsAtTail,
          if_pos hshort]
        by_contra hmore
        have hheader := hin _ (header_mem_of_extraLoop h
          (by dsimp only; omega))
        have := hheader.2
        dsimp only at this
        omega
      by_cases hfits : (fieldAt mem address).size ≤ room - 4
      · obtain ⟨r₁, hfield, hcase⟩ := extraLoop_enter h
          (by dsimp only; omega) (by dsimp only; omega)
        obtain ⟨hvisited, -, houtcome, hntfs⟩ := handleField_inv hfield
        obtain ⟨-, hreads, hentered⟩ := extraLoop_entered hfield hcase
        have hend := hntfs first last fun span hspan =>
          hin span (hreads.subset hspan)
        dsimp only at hcase houtcome hvisited hentered hend
        rw [fieldWalk_cons (by omega) hfits] at hvisits ⊢
        obtain ⟨-, hshort⟩ | ⟨⟨s₁, rfl, hneeded⟩, haccepted⟩ := houtcome
        · exact walkSafe_rejected hshort
        · refine (walkSafe_cons haccepted).mpr ⟨hend, ?_⟩
          obtain ⟨⟨_, hrejected⟩, -⟩ | ⟨s', hs', hrest⟩ := hcase
          · contradiction
          cases hs'
          have hcount : room + 2 * total - 4 + (fieldAt mem address).size =
              room - 4 - (fieldAt mem address).size +
                2 * (total + (fieldAt mem address).size) := by omega
          rw [hcount] at hrest
          have hafter := ih _ _ _ s₁ (by omega) hrest hin
            (by rw [show s₁.visited = _ from hvisited]
                exact hvisits.tail hentered)
          rw [hneeded] at hafter
          exact hafter
      · -- Entering the last header would visit a field that does not exist.
        rw [fieldWalk_stop (.inr (by omega))] at hvisits ⊢
        rw [walkSafe_nil, StopsAtTail, if_neg hshort]
        by_contra hmore
        have haddress : last - room = address := by omega
        rw [haddress] at hmore
        obtain ⟨r₁, hfield, hcase⟩ := extraLoop_enter h
          (by dsimp only; omega) (by dsimp only; omega)
        obtain ⟨-, -, hentered⟩ := extraLoop_entered hfield hcase
        rw [hvisits.visited_eq_of_nil] at hentered
        have hlength := hentered.length_le
        rw [List.length_append, List.length_singleton] at hlength
        omega

/-! ## The contract -/

/-- The extra area is walked as it should exactly when the attributes of its
NTFS fields end inside the area and the walk is stopped: by a zip64 field that
is too short, or because what follows the last field is too short even for the
enlarged count. -/
theorem DirectoryHeader.walkContract_iff (h : DirectoryHeader) :
    h.WalkContract ↔
      WalkSafe h.mem h.extraEnd h.initialState.needed 0 h.fields := by
  constructor
  · rintro ⟨fuel, r, hrun, hin, hvisits⟩
    exact walkSafe_of_extraLoop h.extraStart h.extraLen.toNat 0
      h.initialState rfl hrun hin hvisits
  · intro hsafe
    obtain ⟨enough, r, hrun, ⟨spans, hspans, hin⟩, hvisits⟩ :=
      extraLoop_of_walkSafe h.extraLen.toNat h.extraStart 0 h.initialState rfl
        hsafe
    refine ⟨enough, r, hrun enough le_rfl, ?_, hvisits⟩
    rw [hspans]
    exact hin

/-- One field with the unknown tag `0xFFFF` and four bytes of data, and nothing
behind it in the area. -/
def singleField : DirectoryHeader where
  mem := fun address => [0xFF, 0xFF, 4, 0, 1, 2, 3, 4].getD address 0
  buffer := 0
  filenameLen := 0
  extraLen := 8
  commentLen := 0
  file := {}

/-- A single field at the end of the area is followed by a second header read
from the bytes behind the area. -/
theorem DirectoryHeader.singleField_violates_walkContract :
    ¬singleField.WalkContract := by
  rintro ⟨fuel, r, hrun, hin, hvisits⟩
  have hsafe := walkSafe_of_extraLoop singleField.extraStart
    singleField.extraLen.toNat 0 singleField.initialState rfl hrun hin hvisits
  rw [fieldWalk_cons (by decide) (by decide),
    fieldWalk_stop (.inl (by decide)), walkSafe_cons (by decide),
    walkSafe_nil, StopsAtTail, if_pos (by decide)] at hsafe
  exact absurd hsafe.2 (by decide)

end Baulk.Zip
