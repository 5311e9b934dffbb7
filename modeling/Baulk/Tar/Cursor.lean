import Baulk.Tar.Reader

/-!
# Readers as cursors

What the tar reader relies on is that an underlying reader is a cursor over a
fixed sequence of bytes: it delivers the bytes at its position and moves behind
them.  A position may lie beyond the end, as that of a file may.  This module
states the laws of a cursor and follows them through the functions that read a
header.
-/

namespace Baulk.Tar

/-- The `n` bytes from position `p` on, or all that are left. -/
def segment (D : Bytes) (p n : Nat) : Bytes :=
  (D.drop p).take n

theorem length_segment (D : Bytes) (p n : Nat) :
    (segment D p n).length = min n (D.length - p) := by
  rw [segment, List.length_take, List.length_drop]

@[simp]
theorem segment_zero (D : Bytes) (p : Nat) : segment D p 0 = [] :=
  List.take_zero

theorem segment_length (D : Bytes) (p n : Nat) :
    segment D p (segment D p n).length = segment D p n := by
  rw [length_segment, segment, segment, List.take_eq_take_iff,
    List.length_drop]
  omega

theorem segment_append (D : Bytes) (p a b : Nat) :
    segment D p a ++ segment D (p + a) b = segment D p (a + b) := by
  rw [segment, segment, segment, ← List.drop_drop, ← List.take_add]

/-! ## Writers -/

def AcceptsChunks (w : Writer) (chunks : List Bytes) : Prop :=
  ∀ front, front <+: chunks → front ≠ [] → w front = .accept

def RefusesLast (w : Writer) (chunks : List Bytes) (e : Failure) : Prop :=
  w chunks = .refuse e ∧
    ∀ front, front <+: chunks → front ≠ [] → front ≠ chunks →
      w front = .accept

theorem acceptsChunks_nil (w : Writer) : AcceptsChunks w [] := by
  intro front hfront hne
  exact absurd (List.prefix_nil.mp hfront) hne

theorem AcceptsChunks.concat {w : Writer} {chunks : List Bytes}
    {chunk : Bytes} (h : AcceptsChunks w chunks)
    (hlast : w (chunks ++ [chunk]) = .accept) :
    AcceptsChunks w (chunks ++ [chunk]) := by
  intro front hfront hne
  rcases List.prefix_concat_iff.mp hfront with rfl | hfront
  · exact hlast
  · exact h front hfront hne

theorem AcceptsChunks.refuse {w : Writer} {chunks : List Bytes}
    {chunk : Bytes} {e : Failure} (h : AcceptsChunks w chunks)
    (hlast : w (chunks ++ [chunk]) = .refuse e) :
    RefusesLast w (chunks ++ [chunk]) e := by
  refine ⟨hlast, ?_⟩
  intro front hfront hne hshort
  rcases List.prefix_concat_iff.mp hfront with rfl | hfront
  · exact absurd rfl hshort
  · exact h front hfront hne

/-! ## Cursors -/

/-- A reader that delivers the bytes of `D` in order.  `Forward` says which
numbers of bytes may be discarded without moving back. -/
structure Cursor (R : ExtractReader) (D : Bytes) where
  At : R.State → Nat → Prop
  Forward : Int → Prop
  forward_of_nonneg : ∀ {k}, 0 ≤ k → Forward k
  read_ok : ∀ {s s' p n got}, At s p → R.read n s = some (.ok got, s') →
    got.length ≤ n ∧ got = segment D p got.length ∧ At s' (p + got.length)
  read_error : ∀ {s s' p n e}, At s p → R.read n s = some (.error e, s') →
    ∃ p', p ≤ p' ∧ At s' p'
  discard_ok : ∀ {s s' p k}, At s p → Forward k →
    R.discard k s = some (.ok (), s') → At s' (p + k.toNat)
  discard_error : ∀ {s s' p k e}, At s p → Forward k →
    R.discard k s = some (.error e, s') → ∃ p', p ≤ p' ∧ At s' p'
  writeTo_spec : ∀ {s s' p w n result}, At s p →
    R.writeTo w n s = some (result, s') →
    result.extracted = result.chunks.flatten.length ∧
      (result.extracted ≤ n ∨ result.chunks = []) ∧
      result.chunks.flatten = segment D p result.chunks.flatten.length ∧
      At s' (p + result.chunks.flatten.length)

/-- A cursor whose reads and discards return. -/
structure TotalCursor (R : ExtractReader) (D : Bytes) extends Cursor R D where
  read_returns : ∀ {s p}, At s p → ∀ n, ∃ r, R.read n s = some r
  discard_returns : ∀ {s p}, At s p → ∀ k, Forward k →
    ∃ r, R.discard k s = some r

variable {R : ExtractReader} {D : Bytes}

/-! ## Blocks -/

namespace Cursor

variable (cursor : Cursor R D)

theorem readFull_ok {calls : Nat} :
    ∀ {n p : Nat} {s s' : R.State} {data : Bytes}, cursor.At s p →
      readFull R calls n s = some (.ok data, s') →
      data.length = n ∧ data = segment D p n ∧ cursor.At s' (p + n) := by
  induction calls with
  | zero =>
      intro n p s s' data hs h
      cases n with
      | zero =>
          cases h
          exact ⟨rfl, (segment_zero D p).symm, hs⟩
      | succ n => cases h
  | succ calls ih =>
      intro n p s s' data hs h
      cases n with
      | zero =>
          cases h
          exact ⟨rfl, (segment_zero D p).symm, hs⟩
      | succ n =>
          unfold readFull at h
          split at h
          · contradiction
          · cases h
          · rename_i got s₁ hread
            obtain ⟨hle, hgot, hs₁⟩ := cursor.read_ok hs hread
            split at h
            · cases h
            · split at h <;> cases h
              rename_i rest hrest
              obtain ⟨hlength, hdata, hs'⟩ := ih hs₁ hrest
              have hsum : got.length + (n + 1 - got.length) = n + 1 := by
                omega
              refine ⟨?_, ?_, ?_⟩
              · rw [List.length_append, hlength, hsum]
              · rw [hdata, ← hsum, ← segment_append, ← hgot, hsum]
              · rwa [← hsum, ← Nat.add_assoc]

theorem readFull_error {calls : Nat} :
    ∀ {n p : Nat} {s s' : R.State} {e : Failure}, cursor.At s p →
      readFull R calls n s = some (.error e, s') →
      ∃ p', p ≤ p' ∧ cursor.At s' p' := by
  induction calls with
  | zero =>
      intro n p s s' e hs h
      cases n with
      | zero => cases h
      | succ n =>
          cases h
          exact ⟨p, le_refl p, hs⟩
  | succ calls ih =>
      intro n p s s' e hs h
      cases n with
      | zero => cases h
      | succ n =>
          unfold readFull at h
          split at h
          · contradiction
          · rename_i hread
            cases h
            exact cursor.read_error hs hread
          · rename_i got s₁ hread
            obtain ⟨-, -, hs₁⟩ := cursor.read_ok hs hread
            split at h
            · cases h
              exact ⟨p + got.length, Nat.le_add_right _ _, hs₁⟩
            · split at h <;> cases h
              rename_i hrest
              obtain ⟨p', hle, hs'⟩ := ih hs₁ hrest
              exact ⟨p', by omega, hs'⟩

theorem readBytes_ok {n p : Nat} {s s' : R.State} {data : Bytes}
    (hs : cursor.At s p) (h : readBytes R n s = some (.ok data, s')) :
    data.length = n ∧ data = segment D p n ∧ cursor.At s' (p + n) :=
  cursor.readFull_ok hs h

theorem readBytes_error {n p : Nat} {s s' : R.State} {e : Failure}
    (hs : cursor.At s p) (h : readBytes R n s = some (.error e, s')) :
    ∃ p', p ≤ p' ∧ cursor.At s' p' :=
  cursor.readFull_error hs h

theorem readBytes_le {n p : Nat} {s s' : R.State} {data : Bytes}
    (hs : cursor.At s p) (h : readBytes R n s = some (.ok data, s')) :
    n = 0 ∨ p + n ≤ D.length := by
  obtain ⟨hlength, hdata, -⟩ := cursor.readBytes_ok hs h
  rw [hdata, length_segment] at hlength
  omega

/-- A header that is returned is that of the block at the position. -/
theorem readHeader_ok {p : Nat} {s s' : R.State} {h : Header}
    (hs : cursor.At s p) (hread : readHeader R s = some (.ok h, s')) :
    p + blockSize ≤ D.length ∧ cursor.At s' (p + blockSize) ∧
      isZeroBlock (segment D p blockSize) = false ∧
      parseHeader (segment D p blockSize) = .ok h := by
  unfold readHeader at hread
  split at hread
  · contradiction
  · cases hread
  · rename_i block s₁ hblock
    obtain ⟨-, hdata, hs₁⟩ := cursor.readBytes_ok hs hblock
    have hle := cursor.readBytes_le hs hblock
    have hpositive : blockSize ≠ 0 := by decide
    split at hread
    · split at hread
      · contradiction
      · cases hread
      · split at hread <;> cases hread
    · rename_i hnonzero
      split at hread <;> cases hread
      rename_i hparse
      subst hdata
      exact ⟨hle.resolve_left hpositive, hs₁, by simpa using hnonzero, hparse⟩

theorem readHeader_error {p : Nat} {s s' : R.State} {e : Failure}
    (hs : cursor.At s p) (hread : readHeader R s = some (.error e, s')) :
    ∃ p', p ≤ p' ∧ cursor.At s' p' := by
  unfold readHeader at hread
  split at hread
  · contradiction
  · rename_i hblock
    cases hread
    exact cursor.readBytes_error hs hblock
  · rename_i block s₁ hblock
    obtain ⟨-, -, hs₁⟩ := cursor.readBytes_ok hs hblock
    split at hread
    · split at hread
      · contradiction
      · rename_i hsecond
        cases hread
        obtain ⟨p', hle, hs'⟩ := cursor.readBytes_error hs₁ hsecond
        exact ⟨p', by omega, hs'⟩
      · rename_i hsecond
        obtain ⟨-, -, hs₂⟩ := cursor.readBytes_ok hs₁ hsecond
        split at hread <;> cases hread <;> exact ⟨_, by omega, hs₂⟩
    · split at hread <;> cases hread
      exact ⟨_, by omega, hs₁⟩

/-! ## Rounds of `Next` -/

/-- A round that gets to a header has skipped the rest of the current entry and
read a block. -/
theorem nextHeader_ok {p : Nat} {l l' : NextLoop R} {h : Header}
    (hs : cursor.At l.reader.source p)
    (hforward : cursor.Forward l.reader.remainingSize)
    (hpadding : 0 ≤ l.reader.paddingSize)
    (hnext : nextHeader R l = some (.ok h, l')) :
    let b := p + l.reader.remainingSize.toNat + l.reader.paddingSize.toNat
    b + blockSize ≤ D.length ∧
      isZeroBlock (segment D b blockSize) = false ∧
      parseHeader (segment D b blockSize) = .ok h ∧
      ∃ s padding, handleRegularFile h = .ok padding ∧
        cursor.At s (b + blockSize) ∧
        l' = { l with reader := { l.reader with
          source := s, paddingSize := padding } } := by
  unfold nextHeader at hnext
  split at hnext
  · contradiction
  · cases hnext
  · rename_i s₁ hfirst
    have hs₁ := cursor.discard_ok hs hforward hfirst
    split at hnext
    · contradiction
    · cases hnext
    · rename_i s₂ hsecond
      have hs₂ := cursor.discard_ok hs₁
        (cursor.forward_of_nonneg hpadding) hsecond
      split at hnext
      · contradiction
      · cases hnext
      · rename_i hread
        obtain ⟨hle, hs₃, hzero, hparse⟩ := cursor.readHeader_ok hs₂ hread
        split at hnext <;> cases hnext
        rename_i hregular
        exact ⟨hle, hzero, hparse, _, _, hregular, hs₃, rfl⟩

theorem nextHeader_error {p : Nat} {l l' : NextLoop R} {e : Failure}
    (hs : cursor.At l.reader.source p)
    (hforward : cursor.Forward l.reader.remainingSize)
    (hpadding : 0 ≤ l.reader.paddingSize)
    (hnext : nextHeader R l = some (.error e, l')) :
    ∃ p', p ≤ p' ∧ cursor.At l'.reader.source p' := by
  unfold nextHeader at hnext
  split at hnext
  · contradiction
  · rename_i hfirst
    cases hnext
    exact cursor.discard_error hs hforward hfirst
  · rename_i s₁ hfirst
    have hs₁ := cursor.discard_ok hs hforward hfirst
    split at hnext
    · contradiction
    · rename_i hsecond
      cases hnext
      obtain ⟨p', hle, hs'⟩ := cursor.discard_error hs₁
        (cursor.forward_of_nonneg hpadding) hsecond
      exact ⟨p', by omega, hs'⟩
    · rename_i s₂ hsecond
      have hs₂ := cursor.discard_ok hs₁
        (cursor.forward_of_nonneg hpadding) hsecond
      split at hnext
      · contradiction
      · rename_i hread
        cases hnext
        obtain ⟨p', hle, hs'⟩ := cursor.readHeader_error hs₂ hread
        exact ⟨p', by omega, hs'⟩
      · rename_i hread
        obtain ⟨-, hs₃, -, -⟩ := cursor.readHeader_ok hs₂ hread
        split at hnext <;> cases hnext
        exact ⟨_, by omega, hs₃⟩

end Cursor

end Baulk.Tar
