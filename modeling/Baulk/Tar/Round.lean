import Baulk.Tar.Cursor
import Baulk.Tar.Stream

/-!
# One round of `Next`

A round that begins at the right place, that is, with a remaining size and a
padding that lead to the next header block, either fails or treats that block
as the format says.  This is stated in terms of the bytes ahead of the reader.
-/

namespace Baulk.Tar

open Support (Step)

variable {R : ExtractReader} {D : Bytes} {rt : Runtime}

/-! ## What is ahead of a reader -/

/-- The reader is about to deliver `ahead`, up to the end of the stream. -/
def Stands (cursor : Cursor R D) (s : R.State) (ahead : Bytes) : Prop :=
  ∃ p, cursor.At s p ∧ p ≤ D.length ∧ D.drop p = ahead

theorem Stands.advance {cursor : Cursor R D} {s' : R.State} {p : Nat}
    {front ahead : Bytes} (hp : p ≤ D.length)
    (hdrop : D.drop p = front ++ ahead)
    (hs' : cursor.At s' (p + front.length)) : Stands cursor s' ahead := by
  have hlength := congrArg List.length hdrop
  rw [List.length_drop, List.length_append] at hlength
  refine ⟨p + front.length, hs', by omega, ?_⟩
  rw [← List.drop_drop, hdrop, List.drop_left]

theorem Stands.discard {cursor : Cursor R D} {s s' : R.State}
    {front ahead : Bytes} {k : Int} (hs : Stands cursor s (front ++ ahead))
    (hk : k = front.length) (h : R.discard k s = some (.ok (), s')) :
    Stands cursor s' ahead := by
  obtain ⟨p, hp, hle, hdrop⟩ := hs
  have hforward : cursor.Forward k := cursor.forward_of_nonneg (by omega)
  have hs' := cursor.discard_ok hp hforward h
  rw [hk, Int.toNat_natCast] at hs'
  exact Stands.advance hle hdrop hs'

theorem Stands.readBytes {cursor : Cursor R D} {s s' : R.State}
    {ahead data : Bytes} {n : Nat} (hs : Stands cursor s ahead)
    (h : readBytes R n s = some (.ok data, s')) :
    data.length = n ∧ ∃ rest, ahead = data ++ rest ∧
      Stands cursor s' rest := by
  obtain ⟨p, hp, hle, hdrop⟩ := hs
  obtain ⟨hlength, hdata, hs'⟩ := cursor.readBytes_ok hp h
  have hahead : ahead = data ++ ahead.drop n := by
    rw [hdata, segment, hdrop, List.take_append_drop]
  refine ⟨hlength, ahead.drop n, hahead, ?_⟩
  rw [← hlength] at hs'
  exact Stands.advance hle (hdrop.trans (by rw [← hlength] at hahead ⊢; exact hahead)) hs'

/-- A header block in front of `rest`. -/
structure Block (ahead block rest : Bytes) (h : Header) : Prop where
  split : ahead = block ++ rest
  length : block.length = blockSize
  nonzero : isZeroBlock block = false
  parse : parseHeader block = .ok h
  body : 0 ≤ bodySize h

/-- A round of `Next` that skips exactly what is left of the entry reads the
block behind it. -/
theorem nextHeader_stands {cursor : Cursor R D} {l l' : NextLoop R}
    {unread padding ahead : Bytes} {h : Header}
    (hs : Stands cursor l.reader.source (unread ++ (padding ++ ahead)))
    (hremaining : l.reader.remainingSize = unread.length)
    (hpadding : l.reader.paddingSize = padding.length)
    (hnext : nextHeader R l = some (.ok h, l')) :
    ∃ block rest s, Block ahead block rest h ∧ Stands cursor s rest ∧
      l' = { l with reader := { l.reader with
        source := s, paddingSize := blockPadding (bodySize h) } } := by
  obtain ⟨p, hp, hle, hdrop⟩ := hs
  obtain ⟨hend, hzero, hparse, s, pad, hregular, hs, rfl⟩ :=
    cursor.nextHeader_ok hp (cursor.forward_of_nonneg (by omega)) (by omega)
      hnext
  rw [hremaining, hpadding, Int.toNat_natCast, Int.toNat_natCast] at *
  generalize hb : p + unread.length + padding.length = b at *
  have hahead : D.drop b = ahead := by
    rw [← hb, ← List.drop_drop, ← List.drop_drop, hdrop, List.drop_left,
      List.drop_left]
  have hlength := length_segment D b blockSize
  rw [handleRegularFile_eq] at hregular
  split at hregular <;> cases hregular
  refine ⟨segment D b blockSize, ahead.drop blockSize, s,
    ⟨?_, by omega, hzero, hparse, by omega⟩, ⟨b + blockSize, hs, hend, ?_⟩,
    rfl⟩
  · rw [segment, hahead, List.take_append_drop]
  · rw [← hahead, List.drop_drop]

/-! ## The error code does not matter -/

theorem mergeRecords_header (rt : Runtime) (records : PaxRecords) :
    ∀ (h : Header) (ec ec' : ErrorCode),
      (mergeRecords rt records h ec).1 = (mergeRecords rt records h ec').1 ∧
        (mergeRecords rt records h ec).2.1 =
          (mergeRecords rt records h ec').2.1 := by
  induction records with
  | nil =>
      intro h ec ec'
      exact ⟨rfl, rfl⟩
  | cons record records ih =>
      intro h ec ec'
      unfold mergeRecords
      split
      · exact ⟨rfl, rfl⟩
      · exact ih _ _ _

theorem mergePAX_header (rt : Runtime) (h : Header) (records : PaxRecords)
    (ec ec' : ErrorCode) :
    (mergePAX rt h records ec).1 = (mergePAX rt h records ec').1 ∧
      (mergePAX rt h records ec).2.1 = (mergePAX rt h records ec').2.1 := by
  obtain ⟨hok, hheader⟩ := mergeRecords_header rt (rt.iterate records) h ec ec'
  unfold mergePAX
  rcases hleft : mergeRecords rt (rt.iterate records) h ec
    with ⟨_ | _, h₁, ec₁⟩ <;>
  rcases hright : mergeRecords rt (rt.iterate records) h ec'
    with ⟨_ | _, h₂, ec₂⟩ <;> rw [hleft, hright] at hok hheader <;>
    simp_all

theorem completeHeader_header (rt : Runtime) (records : PaxRecords)
    (longName longLink : Bytes) (h : Header) (ec ec' : ErrorCode) :
    (completeHeader rt records longName longLink h ec).1 =
        (completeHeader rt records longName longLink h ec').1 ∧
      (completeHeader rt records longName longLink h ec).2.1 =
        (completeHeader rt records longName longLink h ec').2.1 := by
  obtain ⟨hok, hheader⟩ := mergePAX_header rt h records ec ec'
  unfold completeHeader
  rcases hleft : mergePAX rt h records ec with ⟨_ | _, h₁, ec₁⟩ <;>
  rcases hright : mergePAX rt h records ec' with ⟨_ | _, h₂, ec₂⟩ <;>
    rw [hleft, hright] at hok hheader <;> simp_all

/-! ## One round -/

def NextLoop.pending (l : NextLoop R) : Pending :=
  ⟨l.paxHdrs, l.gnuLongName, l.gnuLongLink⟩

/-- What a round of `Next` can do when it begins at the right place: fail, or
read a block and treat it as the format says. -/
inductive Round (rt : Runtime) (cursor : Cursor R D) (l : NextLoop R)
    (ahead : Bytes) : Step (NextLoop R) (NextResult R) → Prop
  | fail {r : NextResult R} : r.header = none →
      Round rt cursor l ahead (.done r)
  | remember {block data tail : Bytes} {h : Header} {l' : NextLoop R}
      {s : R.State} :
      Block ahead block (data ++ tail) h →
      isMetadataType h.typeflag = true → (data.length : Int) = h.size →
      interpretMetadata rt l.pending h data = some (.inl l'.pending) →
      Stands cursor s tail →
      l'.reader = { l.reader with
        source := s, paddingSize := blockPadding h.size } →
      Round rt cursor l ahead (.next l')
  | global {block data tail : Bytes} {h h' : Header} {ec : ErrorCode}
      {s : R.State} :
      Block ahead block (data ++ tail) h →
      isMetadataType h.typeflag = true → (data.length : Int) = h.size →
      interpretMetadata rt l.pending h data = some (.inr h') →
      Stands cursor s tail →
      Round rt cursor l ahead (.done ⟨some h', ec, { l.reader with
        source := s, paddingSize := blockPadding h.size }⟩)
  | entry {block rest : Bytes} {h h' : Header} {ec : ErrorCode}
      {s : R.State} :
      Block ahead block rest h → isMetadataType h.typeflag = false →
      interpretOrdinary rt l.pending h = some h' → 0 ≤ bodySize h' →
      Stands cursor s rest →
      Round rt cursor l ahead (.done ⟨some h', ec, { l.reader with
        source := s
        paddingSize := blockPadding (bodySize h')
        remainingSize := h'.size
        index := l.reader.index + 1 }⟩)

theorem nextMetadata_round {cursor : Cursor R D} {l : NextLoop R}
    {ahead block rest : Bytes} {h : Header} {s : R.State}
    {step : Step (NextLoop R) (NextResult R)}
    (hblock : Block ahead block rest h) (hs : Stands cursor s rest)
    (hmeta : isMetadataType h.typeflag = true)
    (hstep : (if isPaxType h.typeflag = true then
        nextPax rt R h { l with reader := { l.reader with
          source := s, paddingSize := blockPadding h.size } }
      else nextLong R h { l with reader := { l.reader with
          source := s, paddingSize := blockPadding h.size } }) = some step) :
    Round rt cursor l ahead step := by
  have hsize := bodySize_of_metadata hmeta
  have hbody := hblock.body
  split at hstep
  · rename_i hpax
    unfold nextPax at hstep
    dsimp only at hstep
    split at hstep
    · contradiction
    · cases hstep
      exact .fail rfl
    · rename_i data s' hread
      obtain ⟨hlength, tail, rfl, htail⟩ := hs.readBytes hread
      split at hstep
      · cases hstep
        exact .fail rfl
      · rename_i records hrecords
        have hpending : parsePAXData rt data l.pending.paxHdrs =
            .ok records := hrecords
        split at hstep <;> rename_i hflag <;> cases hstep
        · refine .global hblock hmeta (by omega) ?_ htail
          simp only [interpretMetadata, hpax, if_true, hpending, if_pos hflag]
          rw [(mergePAX_header rt _ records {} l.ec).2]
        · refine .remember hblock hmeta (by omega) ?_ htail rfl
          simp only [interpretMetadata, hpax, if_true, hpending, if_neg hflag]
          rfl
  · rename_i hpax
    unfold nextLong at hstep
    split at hstep
    · contradiction
    · cases hstep
      exact .fail rfl
    · rename_i data s' hread
      obtain ⟨hlength, tail, rfl, htail⟩ := hs.readBytes hread
      split at hstep <;> rename_i hflag <;> cases hstep
      · refine .remember hblock hmeta (by omega) ?_ htail rfl
        simp only [interpretMetadata, if_neg hpax, if_pos hflag]
        rfl
      · refine .remember hblock hmeta (by omega) ?_ htail rfl
        simp only [interpretMetadata, if_neg hpax, if_neg hflag]
        rfl

theorem nextEntry_round (rt : Runtime) (l : NextLoop R) (h : Header) :
    (nextEntry rt h l).header = none ∨
      ∃ h' ec, interpretOrdinary rt l.pending h = some h' ∧
        0 ≤ bodySize h' ∧
        nextEntry rt h l = ⟨some h', ec, { l.reader with
          paddingSize := blockPadding (bodySize h')
          remainingSize := h'.size
          index := l.reader.index + 1 }⟩ := by
  obtain ⟨hok, hheader⟩ := completeHeader_header rt l.paxHdrs l.gnuLongName
    l.gnuLongLink h l.ec {}
  unfold nextEntry interpretOrdinary NextLoop.pending
  rcases hleft : completeHeader rt l.paxHdrs l.gnuLongName l.gnuLongLink h
    l.ec with ⟨_ | _, h₁, ec₁⟩
  · exact .inl rfl
  · rcases hright : completeHeader rt l.paxHdrs l.gnuLongName l.gnuLongLink h
      {} with ⟨_ | _, h₂, ec₂⟩ <;> rw [hleft, hright] at hok hheader
    · contradiction
    · cases hheader
      dsimp only
      rw [handleRegularFile_eq]
      by_cases hnegative : bodySize h₁ < 0
      · rw [if_pos hnegative]
        exact .inl rfl
      · rw [if_neg hnegative, if_neg hnegative]
        refine .inr ⟨_, ec₁, rfl, by simpa using hnegative, ?_⟩
        simp

theorem nextBody_round {cursor : Cursor R D} {l : NextLoop R}
    {unread padding ahead : Bytes} {step : Step (NextLoop R) (NextResult R)}
    (hs : Stands cursor l.reader.source (unread ++ (padding ++ ahead)))
    (hremaining : l.reader.remainingSize = unread.length)
    (hpadding : l.reader.paddingSize = padding.length)
    (hstep : nextBody rt R l = some step) : Round rt cursor l ahead step := by
  unfold nextBody at hstep
  split at hstep
  · contradiction
  · cases hstep
    exact .fail rfl
  rename_i h l₁ hheader
  obtain ⟨block, rest, s, hblock, hs', rfl⟩ :=
    nextHeader_stands hs hremaining hpadding hheader
  by_cases hmeta : isMetadataType h.typeflag = true
  · refine nextMetadata_round hblock hs' hmeta ?_
    rw [bodySize_of_metadata hmeta] at hstep
    rw [← hstep]
    simp only [isMetadataType, isPaxType, isLongType, Bool.or_eq_true,
      beq_iff_eq] at hmeta ⊢
    split
    · rfl
    · rename_i hpax
      rw [if_pos (hmeta.resolve_left hpax)]
  · have hflags : ¬(h.typeflag = typeXHeader ∨
        h.typeflag = typeXGlobalHeader) ∧
        ¬(h.typeflag = typeGNULongName ∨ h.typeflag = typeGNULongLink) := by
      simpa [isMetadataType, isPaxType, isLongType] using hmeta
    rw [if_neg hflags.1, if_neg hflags.2] at hstep
    cases hstep
    rcases nextEntry_round rt { l with reader := { l.reader with
        source := s, paddingSize := blockPadding (bodySize h) } } h
      with hnone | ⟨h', ec, hordinary, hbody, heq⟩
    · exact .fail hnone
    · rw [heq]
      exact .entry hblock (by simpa using hmeta) hordinary hbody hs'

end Baulk.Tar
