import Baulk.Tar.FileReader

/-!
# Progress of the tar reader

Every successful `Next` reads at least one block, so on a finite stream only
finitely many calls succeed, provided that no discard moves the underlying
reader back.  The padding is never negative.  The remaining size is: that of a
header-only entry is taken from its header unchecked, and a file reader then
seeks backwards.
-/

namespace Baulk.Tar

open Support (Step loop loop_spec loop_returns)

variable {R : ExtractReader} {D : Bytes} {rt : Runtime}

theorem padding_nonneg {h : Header} {padding : Int}
    (hregular : handleRegularFile h = .ok padding) : 0 ≤ padding := by
  unfold handleRegularFile at hregular
  dsimp only at hregular
  generalize (if isHeaderOnlyType h.typeflag = true then 0 else h.size) = nb
    at hregular
  split at hregular <;> cases hregular
  exact Int.emod_nonneg _ (by decide)

/-! ## One round -/

/-- A state of the loop of `Next` from which no discard moves back. -/
structure Advancing (cursor : Cursor R D) (p : Nat) (l : NextLoop R) :
    Prop where
  at_pos : cursor.At l.reader.source p
  forward : cursor.Forward l.reader.remainingSize
  padding : 0 ≤ l.reader.paddingSize

/-- What a result of `Next` says about the position. -/
structure Advanced (cursor : Cursor R D) (p : Nat) (r : NextResult R) :
    Prop where
  forwards : ∃ q, cursor.At r.reader.source q ∧ p ≤ q ∧
    (r.header ≠ none → p + blockSize ≤ q ∧ q ≤ D.length)
  padding : r.header ≠ none → 0 ≤ r.reader.paddingSize

theorem advanced_fail {cursor : Cursor R D} {p q : Nat} {l : NextLoop R}
    (e : Failure) (hq : cursor.At l.reader.source q) (hle : p ≤ q) :
    Advanced cursor p (l.fail e) :=
  ⟨⟨q, hq, hle, fun h => absurd rfl h⟩, fun h => absurd rfl h⟩

/-- The reader stands behind a header block, inside the stream. -/
structure BehindHeader (cursor : Cursor R D) (p : Nat) (l : NextLoop R) :
    Prop where
  at_pos : ∃ q, cursor.At l.reader.source q ∧ p + blockSize ≤ q ∧
    q ≤ D.length
  forward : cursor.Forward l.reader.remainingSize
  padding : 0 ≤ l.reader.paddingSize

theorem nextPax_advances (cursor : Cursor R D) {p : Nat} {l : NextLoop R}
    {h : Header} (hl : BehindHeader cursor p l)
    (step : Step (NextLoop R) (NextResult R))
    (hstep : nextPax rt R h l = some step) :
    step.Sat (BehindHeader cursor p) (Advanced cursor p) := by
  obtain ⟨⟨q, hq, hpq, hend⟩, hforward, hpadding⟩ := hl
  unfold nextPax at hstep
  dsimp only at hstep
  split at hstep
  · contradiction
  · rename_i hread
    cases hstep
    obtain ⟨q', hle, hq'⟩ := cursor.readBytes_error hq hread
    exact advanced_fail _ hq' (by omega)
  · rename_i hread
    obtain ⟨-, -, hq'⟩ := cursor.readBytes_ok hq hread
    have hle := cursor.readBytes_le hq hread
    split at hstep
    · cases hstep
      exact advanced_fail _ hq' (by omega)
    · split at hstep <;> cases hstep
      · exact ⟨⟨_, hq', by omega, fun _ => ⟨by omega, by omega⟩⟩,
          fun _ => hpadding⟩
      · exact ⟨⟨_, hq', by omega, by omega⟩, hforward, hpadding⟩

theorem nextLong_advances (cursor : Cursor R D) {p : Nat} {l : NextLoop R}
    {h : Header} (hl : BehindHeader cursor p l)
    (step : Step (NextLoop R) (NextResult R))
    (hstep : nextLong R h l = some step) :
    step.Sat (BehindHeader cursor p) (Advanced cursor p) := by
  obtain ⟨⟨q, hq, hpq, hend⟩, hforward, hpadding⟩ := hl
  unfold nextLong at hstep
  split at hstep
  · contradiction
  · rename_i hread
    cases hstep
    obtain ⟨q', hle, hq'⟩ := cursor.readBytes_error hq hread
    exact advanced_fail _ hq' (by omega)
  · rename_i hread
    obtain ⟨-, -, hq'⟩ := cursor.readBytes_ok hq hread
    have hle := cursor.readBytes_le hq hread
    split at hstep <;> cases hstep <;>
      exact ⟨⟨_, hq', by omega, by omega⟩, hforward, hpadding⟩

theorem nextEntry_advances (cursor : Cursor R D) {p : Nat} {l : NextLoop R}
    (h : Header) (hl : BehindHeader cursor p l) :
    Advanced cursor p (nextEntry rt h l) := by
  obtain ⟨⟨q, hq, hpq, hend⟩, hforward, hpadding⟩ := hl
  unfold nextEntry
  split
  · exact ⟨⟨q, hq, by omega, fun h => absurd rfl h⟩, fun h => absurd rfl h⟩
  · split
    · exact ⟨⟨q, hq, by omega, fun h => absurd rfl h⟩, fun h => absurd rfl h⟩
    · rename_i hregular
      exact ⟨⟨q, hq, by omega, fun _ => ⟨hpq, hend⟩⟩,
        fun _ => padding_nonneg hregular⟩

/-- One round of `Next` moves at least one block ahead or ends. -/
theorem nextBody_advances (cursor : Cursor R D) {p : Nat} {l : NextLoop R}
    (hl : Advancing cursor p l) (step : Step (NextLoop R) (NextResult R))
    (hstep : nextBody rt R l = some step) :
    step.Sat (BehindHeader cursor p) (Advanced cursor p) := by
  unfold nextBody at hstep
  split at hstep
  · contradiction
  · rename_i hheader
    cases hstep
    obtain ⟨q, hle, hq⟩ := cursor.nextHeader_error hl.at_pos hl.forward
      hl.padding hheader
    exact advanced_fail _ hq hle
  · rename_i hheader
    obtain ⟨hend, -, -, s, padding, hregular, hs, rfl⟩ :=
      cursor.nextHeader_ok hl.at_pos hl.forward hl.padding hheader
    have hbehind : BehindHeader cursor p { l with
        reader := { l.reader with source := s, paddingSize := padding } } :=
      ⟨⟨_, hs, by omega, hend⟩, hl.forward, padding_nonneg hregular⟩
    split at hstep
    · exact nextPax_advances cursor hbehind step hstep
    split at hstep
    · exact nextLong_advances cursor hbehind step hstep
    · cases hstep
      exact nextEntry_advances cursor _ hbehind

/-! ## One call -/

theorem next_advances (cursor : Cursor R D) {p fuel : Nat} {ec : ErrorCode}
    {r : Reader R} {result : NextResult R} (hr : cursor.At r.source p)
    (hforward : cursor.Forward r.remainingSize)
    (hpadding : 0 ≤ r.paddingSize)
    (h : next rt R fuel ec r = some result) :
    Advanced cursor p result := by
  refine loop_spec
    (I := fun l => ∃ q, p ≤ q ∧ Advancing cursor q l) ?_
    ⟨p, le_refl p, hr, hforward, hpadding⟩ h
  rintro l step ⟨q, hpq, hl⟩ hstep
  have hround := nextBody_advances cursor hl step hstep
  cases step with
  | next l' =>
      obtain ⟨⟨q', hq', hle, -⟩, hforward', hpadding'⟩ := hround
      exact ⟨q', by omega, hq', hforward', hpadding'⟩
  | done result =>
      obtain ⟨⟨q', hq', hle, hsome⟩, hpadding'⟩ := hround
      refine ⟨⟨q', hq', by omega, fun hne => ?_⟩, hpadding'⟩
      obtain ⟨hblock, hend⟩ := hsome hne
      exact ⟨by omega, hend⟩

namespace TotalCursor

variable (cursor : TotalCursor R D)

theorem readFull_returns {calls : Nat} :
    ∀ {n p : Nat} {s : R.State}, cursor.At s p →
      ∃ r, readFull R calls n s = some r := by
  induction calls with
  | zero =>
      intro n p s _
      cases n with
      | zero => exact ⟨_, rfl⟩
      | succ n => exact ⟨_, rfl⟩
  | succ calls ih =>
      intro n p s hs
      cases n with
      | zero => exact ⟨_, rfl⟩
      | succ n =>
          obtain ⟨⟨e | got, s'⟩, hread⟩ := cursor.read_returns hs (n + 1)
          · exact ⟨_, by rw [readFull, hread]⟩
          · obtain ⟨-, -, hs'⟩ := cursor.read_ok hs hread
            obtain ⟨⟨e | rest, s''⟩, hrest⟩ := ih hs'
            · rw [readFull, hread]
              dsimp only
              rw [hrest]
              split <;> exact ⟨_, rfl⟩
            · rw [readFull, hread]
              dsimp only
              rw [hrest]
              split <;> exact ⟨_, rfl⟩

theorem readHeader_returns {p : Nat} {s : R.State} (hs : cursor.At s p) :
    ∃ r, readHeader R s = some r := by
  obtain ⟨⟨e | block, s'⟩, hread⟩ : ∃ r, readBytes R blockSize s = some r :=
    cursor.readFull_returns hs
  · exact ⟨_, by rw [readHeader, hread]⟩
  · obtain ⟨-, -, hs'⟩ := cursor.readBytes_ok hs hread
    obtain ⟨⟨e | second, s''⟩, hsecond⟩ :
        ∃ r, readBytes R blockSize s' = some r := cursor.readFull_returns hs'
    · rw [readHeader, hread]
      dsimp only
      rw [hsecond]
      split
      · exact ⟨_, rfl⟩
      · split <;> exact ⟨_, rfl⟩
    · rw [readHeader, hread]
      dsimp only
      rw [hsecond]
      split
      · dsimp only
        split <;> exact ⟨_, rfl⟩
      · split <;> exact ⟨_, rfl⟩

theorem nextHeader_returns {p : Nat} {l : NextLoop R}
    (hl : Advancing cursor.toCursor p l) : ∃ r, nextHeader R l = some r := by
  obtain ⟨⟨e | u, s₁⟩, hfirst⟩ :=
    cursor.discard_returns hl.at_pos _ hl.forward
  · exact ⟨_, by rw [nextHeader, hfirst]⟩
  have hs₁ := cursor.discard_ok hl.at_pos hl.forward hfirst
  have hpadding := cursor.forward_of_nonneg hl.padding
  obtain ⟨⟨e | u, s₂⟩, hsecond⟩ := cursor.discard_returns hs₁ _ hpadding
  · exact ⟨_, by rw [nextHeader, hfirst]; dsimp only; rw [hsecond]⟩
  have hs₂ := cursor.discard_ok hs₁ hpadding hsecond
  obtain ⟨⟨e | h, s₃⟩, hread⟩ := cursor.readHeader_returns hs₂
  · exact ⟨_, by
      rw [nextHeader, hfirst]; dsimp only; rw [hsecond]; dsimp only
      rw [hread]⟩
  · rw [nextHeader, hfirst]
    dsimp only
    rw [hsecond]
    dsimp only
    rw [hread]
    dsimp only
    split <;> exact ⟨_, rfl⟩

theorem nextPax_returns {p : Nat} {l : NextLoop R} {h : Header}
    (hl : cursor.At l.reader.source p) : ∃ step, nextPax rt R h l = some step := by
  obtain ⟨⟨e | data, s⟩, hread⟩ :
      ∃ r, readBytes R h.size.toNat l.reader.source = some r :=
    cursor.readFull_returns hl
  · simp only [nextPax, hread]
    exact ⟨_, rfl⟩
  · simp only [nextPax, hread]
    split
    · exact ⟨_, rfl⟩
    · split <;> exact ⟨_, rfl⟩

theorem nextLong_returns {p : Nat} {l : NextLoop R} {h : Header}
    (hl : cursor.At l.reader.source p) : ∃ step, nextLong R h l = some step := by
  obtain ⟨⟨e | data, s⟩, hread⟩ :
      ∃ r, readBytes R h.size.toNat l.reader.source = some r :=
    cursor.readFull_returns hl
  · simp only [nextLong, hread]
    exact ⟨_, rfl⟩
  · simp only [nextLong, hread]
    split <;> exact ⟨_, rfl⟩

theorem nextBody_returns (rt : Runtime) {p : Nat} {l : NextLoop R}
    (hl : Advancing cursor.toCursor p l) :
    ∃ step, nextBody rt R l = some step := by
  obtain ⟨⟨e | h, l'⟩, hheader⟩ := cursor.nextHeader_returns hl
  · exact ⟨_, by rw [nextBody, hheader]⟩
  · obtain ⟨-, -, -, s, padding, -, hs, rfl⟩ :=
      cursor.nextHeader_ok hl.at_pos hl.forward hl.padding hheader
    rw [nextBody, hheader]
    dsimp only
    split
    · exact cursor.nextPax_returns hs
    split
    · exact cursor.nextLong_returns hs
    · exact ⟨_, rfl⟩

/-- `Next` returns: each round takes a block from what is left. -/
theorem next_returns (rt : Runtime) {p fuel : Nat} {r : Reader R}
    (ec : ErrorCode)
    (hr : cursor.At r.source p) (hforward : cursor.Forward r.remainingSize)
    (hpadding : 0 ≤ r.paddingSize) (hfuel : D.length / blockSize < fuel) :
    ∃ result, next rt R fuel ec r = some result := by
  have hblock : blockSize = 512 := rfl
  rw [hblock] at hfuel
  refine loop_returns
    (B := fun m l => ∃ q, D.length - q < 512 * (m + 1) ∧
      Advancing cursor.toCursor q l) ?_
    ⟨p, by omega, hr, hforward, hpadding⟩ hfuel
  rintro m l ⟨q, hm, hl⟩
  obtain ⟨step, hstep⟩ := cursor.nextBody_returns rt hl
  refine ⟨step, hstep, ?_⟩
  rintro l' rfl
  obtain ⟨⟨q', hq', hle, hend⟩, hforward', hpadding'⟩ :=
    nextBody_advances cursor.toCursor hl _ hstep
  exact ⟨m - 1, by omega, q', by omega, hq', hforward', hpadding'⟩

end TotalCursor

/-! ## Repeated calls -/

/-- A number of successful calls of `Next` in a row, from the state `r` on, of
which none finds a remaining size that would move the reader back. -/
inductive NextRun (rt : Runtime) (cursor : Cursor R D) (fuel : Nat)
    (r : Reader R) : Nat → Reader R → Prop
  | start : NextRun rt cursor fuel r 0 r
  | next {k : Nat} {r' r'' : Reader R} {ec ec' : ErrorCode} {h : Header} :
      NextRun rt cursor fuel r k r' →
      cursor.Forward r'.remainingSize →
      Tar.next rt R fuel ec r' = some ⟨some h, ec', r''⟩ →
      NextRun rt cursor fuel r (k + 1) r''

theorem nextRun_position {cursor : Cursor R D} {fuel k p : Nat}
    {r r' : Reader R} (hr : cursor.At r.source p)
    (hpadding : 0 ≤ r.paddingSize) (hrun : NextRun rt cursor fuel r k r') :
    0 ≤ r'.paddingSize ∧ ∃ q, cursor.At r'.source q ∧
      p + blockSize * k ≤ q ∧ (k = 0 ∨ q ≤ D.length) := by
  induction hrun with
  | start => exact ⟨hpadding, p, hr, by omega, .inl rfl⟩
  | next _ hforward hnext ih =>
      obtain ⟨hpadding', q, hq, hle, -⟩ := ih
      obtain ⟨⟨q', hq', -, hsome⟩, hpadding''⟩ :=
        next_advances cursor hq hforward hpadding' hnext
      obtain ⟨hblock, hend⟩ := hsome (by simp)
      refine ⟨hpadding'' (by simp), q', hq', ?_, .inr hend⟩
      rw [Nat.mul_add]
      omega

/-- Repeated calls of `Next` fail at last: after `k` successes `k` blocks were
passed, and the next call returns and moves ahead by a block if it succeeds
too.  It never moves back. -/
theorem nextRun_progress (cursor : TotalCursor R D) {fuel k p : Nat}
    {r r' : Reader R} (hr : cursor.At r.source p)
    (hpadding : 0 ≤ r.paddingSize)
    (hrun : NextRun rt cursor.toCursor fuel r k r')
    (hforward : cursor.Forward r'.remainingSize)
    (hfuel : D.length / blockSize < fuel) :
    k ≤ D.length / blockSize ∧ ∃ q, cursor.At r'.source q ∧
      p + blockSize * k ≤ q ∧
      ∀ ec, ∃ result q', next rt R fuel ec r' = some result ∧
        cursor.At result.reader.source q' ∧ q ≤ q' ∧
        (result.header ≠ none → q + blockSize ≤ q') := by
  have hblock : blockSize = 512 := rfl
  obtain ⟨hpadding', q, hq, hle, hend⟩ := nextRun_position hr hpadding hrun
  refine ⟨by rw [hblock] at *; omega, q, hq, hle, fun ec => ?_⟩
  obtain ⟨result, hresult⟩ :=
    cursor.next_returns rt ec hq hforward hpadding' hfuel
  obtain ⟨⟨q', hq', hqq', hsome⟩, -⟩ :=
    next_advances cursor.toCursor hq hforward hpadding' hresult
  exact ⟨result, q', hresult, hq', hqq', fun hne => (hsome hne).1⟩

/-! ## A header that repeats -/

/-- A directory without a size. -/
def emptyDirFile : SourceFile where
  content := ⟨plainBlock 0x61 (List.replicate 12 0)
    (narrow "626" ++ List.replicate 5 0) typeDir,
    by rw [length_plainBlock]; decide⟩

/-- A directory whose size is -512, as a base-256 number. -/
def negativeDirFile : SourceFile where
  content := ⟨plainBlock 0x61 (List.replicate 10 0xFF ++ [0xFE, 0])
    (narrow "6212" ++ List.replicate 4 0) typeDir,
    by rw [length_plainBlock]; decide⟩

set_option maxRecDepth 4000 in
/-- The laws apply to a file with one directory: a first call succeeds, and
no second one does. -/
theorem emptyDir_progress :
    ∃ r' : Reader (fileReader emptyDirFile 0),
      NextRun plainRuntime (FileReader.cursor emptyDirFile 0).toCursor 2
        ⟨⟨0, 0⟩, 0, 0, 0⟩ 1 r' ∧
      1 ≤ emptyDirFile.content.bytes.length / blockSize ∧
      ∃ q, r'.source.pos = q ∧ 0 + blockSize * 1 ≤ q ∧
        ∀ ec, ∃ result q', next plainRuntime (fileReader emptyDirFile 0) 2 ec
            r' = some result ∧
          result.reader.source.pos = q' ∧ q ≤ q' ∧
          (result.header ≠ none → q + blockSize ≤ q') := by
  have hrun : NextRun plainRuntime (FileReader.cursor emptyDirFile 0).toCursor
      2 ⟨⟨0, 0⟩, 0, 0, 0⟩ 1 ⟨⟨512, 3⟩, 0, 0, 1⟩ :=
    .next .start (Int.le_refl 0)
      (rfl : next plainRuntime (fileReader emptyDirFile 0) 2 {} _ = _)
  have hstart : (FileReader.cursor emptyDirFile 0).At
      (⟨⟨0, 0⟩, 0, 0, 0⟩ : Reader (fileReader emptyDirFile 0)).source 0 := rfl
  refine ⟨_, hrun, ?_⟩
  refine nextRun_progress (FileReader.cursor emptyDirFile 0) hstart
    (Int.le_refl 0) hrun (Int.le_refl 0) ?_
  rw [emptyDirFile, length_plainBlock]
  decide

set_option maxRecDepth 4000 in
/-- A second call seeks back over the header and returns it again. -/
theorem negativeDir_repeats :
    ∃ h ec, ∃ r₁ r₂ : Reader (fileReader negativeDirFile 0),
      next plainRuntime (fileReader negativeDirFile 0) 2 {}
          ⟨⟨0, 0⟩, 0, 0, 0⟩ = some ⟨some h, ec, r₁⟩ ∧
        next plainRuntime (fileReader negativeDirFile 0) 2 {} r₁ =
          some ⟨some h, ec, r₂⟩ ∧
        ¬r₁.source.pos + blockSize ≤ r₂.source.pos :=
  ⟨_, _, _, _, rfl, rfl, by decide⟩

end Baulk.Tar
