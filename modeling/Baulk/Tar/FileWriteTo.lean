import Baulk.Tar.FileReader

/-!
# `WriteTo` of a file

`FileReader::WriteTo` hands over the file in pieces.  `ReadFile` succeeds with no
bytes at the end of a file, and the loop counts bytes only: a request that goes
behind the end is served with empty pieces until something else fails.
-/

namespace Baulk.Tar

open Support (Step loop Follows)

namespace FileReader

variable {file : SourceFile} {w : Writer} {n : Int} {s : FileState}

/-- The bytes of the file from its position on. -/
def available (file : SourceFile) (s : FileState) : Nat :=
  file.content.bytes.length - s.pos

/-- How many bytes are handed over in `k` rounds. -/
def handedOver (file : SourceFile) (n : Int) (s : FileState) (k : Nat) : Nat :=
  min (bufferSize * k) (min n.toNat (available file s))

def piece (file : SourceFile) (n : Int) (s : FileState) (k : Nat) : Bytes :=
  segment file.content.bytes (s.pos + handedOver file n s k)
    (min bufferSize (n.toNat - handedOver file n s k))

/-- The pieces of `k` rounds. -/
def pieces (file : SourceFile) (n : Int) (s : FileState) (k : Nat) : List Bytes :=
  (List.range k).map (piece file n s)

/-- The state after `k` rounds in which every piece was accepted. -/
def roundState (file : SourceFile) (n : Int) (s : FileState) (k : Nat) : WriteLoop where
  filesize := n - handedOver file n s k
  extracted := handedOver file n s k
  chunks := pieces file n s k
  state := ⟨s.pos + handedOver file n s k, s.calls + k⟩

theorem handedOver_zero : handedOver file n s 0 = 0 := by
  rw [handedOver, Nat.mul_zero, Nat.zero_min]

theorem handedOver_le (file : SourceFile) (n : Int) (s : FileState) (k : Nat) :
    handedOver file n s k ≤ available file s := by
  unfold handedOver
  omega

theorem handedOver_succ (k : Nat) :
    handedOver file n s (k + 1) =
      handedOver file n s k + (piece file n s k).length := by
  have hpiece : (piece file n s k).length =
      min (min bufferSize (n.toNat - handedOver file n s k))
        (available file s - handedOver file n s k) := by
    rw [piece, length_segment, available]
    omega
  have hround : bufferSize * (k + 1) = bufferSize * k + bufferSize := Nat.mul_succ _ k
  rw [hpiece]
  unfold handedOver
  omega

theorem pieces_succ (k : Nat) :
    pieces file n s (k + 1) = pieces file n s k ++ [piece file n s k] := by
  rw [pieces, pieces, List.range_succ, List.map_append, List.map_singleton]

theorem flatten_pieces (k : Nat) :
    (pieces file n s k).flatten =
      segment file.content.bytes s.pos (handedOver file n s k) := by
  induction k with
  | zero =>
      rw [handedOver_zero, segment_zero]
      rfl
  | succ k ih =>
      have hpiece : piece file n s k =
          segment file.content.bytes (s.pos + handedOver file n s k)
            (piece file n s k).length := by
        unfold piece
        rw [segment_length]
      rw [pieces_succ, List.flatten_append, List.flatten_singleton, ih, handedOver_succ,
        hpiece, segment_append, ← hpiece]

/-! ## One round -/

/-- A call of `ReadFile` that succeeds returns the next piece. -/
theorem readFile_piece {k : Nat} (hfault : file.fault (s.calls + k) = none) :
    readFile file (min bufferSize (n.toNat - handedOver file n s k))
        ⟨s.pos + handedOver file n s k, s.calls + k⟩ =
      (.ok (piece file n s k), ⟨s.pos + handedOver file n s (k + 1), s.calls + (k + 1)⟩) := by
  have hsize : bufferSize < 2 ^ 32 := by decide
  have hmod : min bufferSize (n.toNat - handedOver file n s k) % 2 ^ 32 =
      min bufferSize (n.toNat - handedOver file n s k) := Nat.mod_eq_of_lt (by omega)
  rw [readFile, hfault, handedOver_succ, ← Nat.add_assoc, piece]
  dsimp only
  rw [hmod, Nat.add_assoc s.calls]

theorem writeBody_complete {k : Nat} (h : n ≤ handedOver file n s k) :
    writeBody file w (roundState file n s k) =
      some (.done (⟨.ok (), pieces file n s k, handedOver file n s k⟩,
        ⟨s.pos + handedOver file n s k, s.calls + k⟩)) := by
  have hrest : (roundState file n s k).filesize ≤ 0 := by
    dsimp only [roundState]
    omega
  rw [writeBody, if_pos hrest]
  rfl

theorem writeBody_fault {k : Nat} {e : SystemError} (h : (handedOver file n s k : Int) < n)
    (hfault : file.fault (s.calls + k) = some e) :
    ∃ s', writeBody file w (roundState file n s k) =
      some (.done (⟨.error (some (e.toErrorCode (wide "ReadFile: "))), pieces file n s k,
        handedOver file n s k⟩, s')) := by
  have hrest : ¬ (roundState file n s k).filesize ≤ 0 := by
    dsimp only [roundState]
    omega
  rw [writeBody, if_neg hrest]
  dsimp only [roundState]
  rw [readFile, hfault]
  exact ⟨_, rfl⟩

/-- A round that reads goes on if and only if the writer accepts its piece. -/
theorem writeBody_accept {k : Nat} (h : (handedOver file n s k : Int) < n)
    (hfault : file.fault (s.calls + k) = none)
    (hw : w (pieces file n s (k + 1)) = .accept) :
    writeBody file w (roundState file n s k) =
      some (.next (roundState file n s (k + 1))) := by
  have hrest : ¬ (roundState file n s k).filesize ≤ 0 := by
    dsimp only [roundState]
    omega
  have hmin : (n - handedOver file n s k).toNat = n.toNat - handedOver file n s k := by
    omega
  rw [writeBody, if_neg hrest]
  dsimp only [roundState]
  rw [hmin, readFile_piece hfault]
  dsimp only
  rw [← pieces_succ, hw, handedOver_succ, Nat.cast_add, Int.sub_sub]

theorem writeBody_refuse {k : Nat} {e : Failure} (h : (handedOver file n s k : Int) < n)
    (hfault : file.fault (s.calls + k) = none)
    (hw : w (pieces file n s (k + 1)) = .refuse e) :
    ∃ s', writeBody file w (roundState file n s k) =
      some (.done (⟨.error e, pieces file n s (k + 1), handedOver file n s (k + 1)⟩, s')) := by
  have hrest : ¬ (roundState file n s k).filesize ≤ 0 := by
    dsimp only [roundState]
    omega
  have hmin : (n - handedOver file n s k).toNat = n.toNat - handedOver file n s k := by
    omega
  rw [writeBody, if_neg hrest]
  dsimp only [roundState]
  rw [hmin, readFile_piece hfault]
  dsimp only
  rw [← pieces_succ, hw, handedOver_succ, Nat.cast_add]
  exact ⟨_, rfl⟩

/-! ## Whole runs -/

/-- Something ends the round of a request that is not complete: `ReadFile` fails, or
the writer refuses the piece. -/
def Interrupted (file : SourceFile) (w : Writer) (n : Int) (s : FileState) (k : Nat) : Prop :=
  file.fault (s.calls + k) ≠ none ∨ w (pieces file n s (k + 1)) ≠ .accept

theorem follows_roundState :
    Follows (writeBody file w) (roundState file n s) := by
  intro k
  rcases le_or_gt n (handedOver file n s k) with hcomplete | hmore
  · exact .inr ⟨_, writeBody_complete hcomplete⟩
  · cases hfault : file.fault (s.calls + k) with
    | some e =>
        obtain ⟨s', hdone⟩ := writeBody_fault (w := w) hmore hfault
        exact .inr ⟨_, hdone⟩
    | none =>
        cases hw : w (pieces file n s (k + 1)) with
        | accept => exact .inl (writeBody_accept hmore hfault hw)
        | refuse e =>
            obtain ⟨s', hdone⟩ := writeBody_refuse hmore hfault hw
            exact .inr ⟨_, hdone⟩

/-- A round ends the loop when the request is complete, or when it is interrupted. -/
theorem writeBody_done {k : Nat} {r : WriteResult × FileState}
    (h : writeBody file w (roundState file n s k) = some (.done r)) :
    (n ≤ handedOver file n s k ∧
        r.1 = ⟨.ok (), pieces file n s k, handedOver file n s k⟩) ∨
      ((handedOver file n s k : Int) < n ∧ Interrupted file w n s k ∧
        ∃ e, r.1.outcome = .error e) := by
  rcases le_or_gt n (handedOver file n s k) with hcomplete | hmore
  · rw [writeBody_complete hcomplete] at h
    cases h
    exact .inl ⟨hcomplete, rfl⟩
  · refine .inr ⟨hmore, ?_⟩
    cases hfault : file.fault (s.calls + k) with
    | some e =>
        obtain ⟨s', hdone⟩ := writeBody_fault (w := w) hmore hfault
        rw [hdone] at h
        cases h
        refine ⟨.inl ?_, _, rfl⟩
        rw [hfault]
        exact Option.some_ne_none e
    | none =>
        cases hw : w (pieces file n s (k + 1)) with
        | accept =>
            rw [writeBody_accept hmore hfault hw] at h
            cases h
        | refuse e =>
            obtain ⟨s', hdone⟩ := writeBody_refuse hmore hfault hw
            rw [hdone] at h
            cases h
            refine ⟨.inr ?_, _, rfl⟩
            rw [hw]
            exact Answer.noConfusion

theorem exists_done_of_interrupted {k : Nat} (h : Interrupted file w n s k) :
    ∃ r, writeBody file w (roundState file n s k) = some (.done r) := by
  rcases le_or_gt n (handedOver file n s k) with hcomplete | hmore
  · exact ⟨_, writeBody_complete hcomplete⟩
  · cases hfault : file.fault (s.calls + k) with
    | some e =>
        obtain ⟨s', hdone⟩ := writeBody_fault (w := w) hmore hfault
        exact ⟨_, hdone⟩
    | none =>
        cases hw : w (pieces file n s (k + 1)) with
        | accept => exact absurd hw (h.resolve_left (not_not_intro hfault))
        | refuse e =>
            obtain ⟨s', hdone⟩ := writeBody_refuse hmore hfault hw
            exact ⟨_, hdone⟩

theorem writeTo_roundState (fuel : Nat) :
    writeTo file fuel w n s = loop (writeBody file w) fuel (roundState file n s 0) := by
  unfold writeTo roundState
  rw [handedOver_zero, Nat.cast_zero, Int.sub_zero]
  rfl

theorem writeTo_cases {fuel : Nat} {r : WriteResult × FileState}
    (h : writeTo file fuel w n s = some r) :
    ∃ k, (n ≤ handedOver file n s k ∧
        r.1 = ⟨.ok (), pieces file n s k, handedOver file n s k⟩) ∨
      ((handedOver file n s k : Int) < n ∧ Interrupted file w n s k ∧
        ∃ e, r.1.outcome = .error e) := by
  rw [writeTo_roundState] at h
  obtain ⟨k, -, hdone⟩ := follows_roundState.exists_done h
  exact ⟨k, writeBody_done hdone⟩

theorem writeTo_returns (h : n ≤ available file s ∨ ∃ k, Interrupted file w n s k) :
    ∃ fuel r, writeTo file fuel w n s = some r := by
  simp only [writeTo_roundState]
  refine follows_roundState.returns_iff.mpr ?_
  rcases h with hroom | ⟨k, hinterrupted⟩
  · refine ⟨n.toNat, _, writeBody_complete ?_⟩
    have hsize : n.toNat ≤ bufferSize * n.toNat := Nat.le_mul_of_pos_left _ (by decide)
    unfold handedOver
    omega
  · exact ⟨k, exists_done_of_interrupted hinterrupted⟩

/-! ## What `WriteTo` promises -/

/-- `WriteTo` on a request of `n` bytes as it is meant: it ends, it succeeds only with
exactly the bytes asked for, and when the file ends before them it fails, with an error
and after all that is there unless a read or the writer failed. -/
structure WritesExactly (file : SourceFile) (w : Writer) (n : Int) (s : FileState) : Prop where
  returns : ∃ fuel r, writeTo file fuel w n s = some r
  complete : ∀ {fuel r}, writeTo file fuel w n s = some r → r.1.outcome = .ok () →
    r.1.chunks.flatten = segment file.content.bytes s.pos n.toNat ∧
      r.1.chunks.flatten.length = n.toNat
  short : ∀ {fuel r}, writeTo file fuel w n s = some r → (available file s : Int) < n →
    ∃ e, r.1.outcome = .error e ∧ ((∀ k, ¬ Interrupted file w n s k) →
      e ≠ none ∧ r.1.chunks.flatten = file.content.bytes.drop s.pos)

/-- A request within the file is served exactly.  One that goes behind the end is
served only when a read or the writer fails, since nothing else ends the loop. -/
theorem writesExactly_iff (file : SourceFile) (w : Writer) (n : Int) (s : FileState) :
    WritesExactly file w n s ↔
      n ≤ available file s ∨ ∃ k, Interrupted file w n s k := by
  constructor
  · intro h
    obtain ⟨fuel, r, hwrite⟩ := h.returns
    obtain ⟨k, ⟨hcomplete, -⟩ | ⟨-, hinterrupted, -⟩⟩ := writeTo_cases hwrite
    · have hbound := handedOver_le file n s k
      exact .inl (by omega)
    · exact .inr ⟨k, hinterrupted⟩
  · intro h
    refine ⟨writeTo_returns h, ?_, ?_⟩
    · intro fuel r hwrite hok
      obtain ⟨k, ⟨hcomplete, hr⟩ | ⟨-, -, e, herror⟩⟩ := writeTo_cases hwrite
      · have hall : handedOver file n s k = n.toNat := by
          unfold handedOver at hcomplete ⊢
          omega
        have hbound := handedOver_le file n s k
        rw [hr, flatten_pieces, hall]
        refine ⟨rfl, ?_⟩
        rw [length_segment]
        unfold available at hbound
        omega
      · rw [herror] at hok
        cases hok
    · intro fuel r hwrite hshort
      obtain ⟨k, ⟨hcomplete, hr⟩ | ⟨-, hinterrupted, e, herror⟩⟩ := writeTo_cases hwrite
      · have hbound := handedOver_le file n s k
        omega
      · exact ⟨e, herror, fun hnever => absurd hinterrupted (hnever k)⟩

def emptyFile : SourceFile where
  content := ⟨[], FileBytes.length_nil_lt⟩

/-- On an empty file, a request of one byte never ends when the writer accepts the
empty pieces. -/
theorem empty_not_writesExactly :
    ¬ WritesExactly emptyFile (fun _ => .accept) 1 ⟨0, 0⟩ := by
  intro h
  obtain ⟨fuel, r, hwrite⟩ := h.returns
  obtain ⟨k, ⟨hcomplete, -⟩ | ⟨-, hinterrupted, -⟩⟩ := writeTo_cases hwrite
  · have hbound := handedOver_le emptyFile 1 ⟨0, 0⟩ k
    have hempty : available emptyFile ⟨0, 0⟩ = 0 := rfl
    omega
  · rcases hinterrupted with hfault | hrefused
    · exact hfault rfl
    · exact hrefused rfl

end FileReader

end Baulk.Tar
