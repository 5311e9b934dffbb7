import Baulk.Tar.Reader

/-!
# The error codes of the tar reader

What is wrong with a header or with a record is reported as `ErrNotTarFile` or
`ErrExtractGeneral`; the end of the stream, clean or not, as `ErrEnded`.  All
other codes come from the underlying reader.
-/

namespace Baulk.Tar

open Support (Step loop loop_spec)

/-- The error codes for malformed archives. -/
def IsTarError (ec : ErrorCode) : Prop :=
  ec.code = ErrorCode.errNotTarFile ∨ ec.code = ErrorCode.errExtractGeneral

/-! ## Records and headers -/

theorem isTarError_invalidHeader : IsTarError invalidHeader := .inl rfl

theorem isTarError_invalidValue (rt : Runtime) (what : String) (v : Bytes) :
    IsTarError (invalidValue rt what v) := .inr rfl

theorem parsePAXRecord_error {rt : Runtime} {sv : Bytes} {ec : ErrorCode}
    (h : parsePAXRecord rt sv = .error ec) : IsTarError ec := by
  unfold parsePAXRecord at h
  dsimp only at h
  split at h
  · cases h
    exact .inr rfl
  split at h
  · cases h
    exact isTarError_invalidValue _ _ _
  split at h
  · cases h
    exact isTarError_invalidValue _ _ _
  split at h
  · cases h
    exact .inr rfl
  split at h
  · cases h
    exact .inr rfl
  split at h
  · cases h
    exact .inr rfl
  split at h <;> cases h
  exact .inr rfl

theorem parseRecords_error {rt : Runtime} {ec : ErrorCode} (count : Nat) :
    ∀ {sv : Bytes} {sparseMap : List Bytes} {records : PaxRecords},
      parseRecords rt count sv sparseMap records = .error ec →
      IsTarError ec := by
  induction count with
  | zero =>
      intro sv sparseMap records h
      cases h
  | succ count ih =>
      intro sv sparseMap records h
      cases sv with
      | nil => cases h
      | cons b sv =>
          unfold parseRecords at h
          split at h
          · rename_i hrecord
            cases h
            exact parsePAXRecord_error hrecord
          split at h
          · split at h
            · cases h
              exact isTarError_invalidHeader
            · exact ih h
          · exact ih h

theorem parsePAXData_error {rt : Runtime} {data : Bytes}
    {records : PaxRecords} {ec : ErrorCode}
    (h : parsePAXData rt data records = .error ec) : IsTarError ec :=
  parseRecords_error _ h

theorem parsePAXTime_error {rt : Runtime} {p : Bytes} {ec : ErrorCode}
    (h : parsePAXTime rt p = .error ec) : IsTarError ec := by
  unfold parsePAXTime at h
  dsimp only at h
  split at h
  · cases h
    exact isTarError_invalidValue _ _ _
  · split at h <;> cases h

theorem parseHeader_error {block : Bytes} {ec : ErrorCode}
    (h : parseHeader block = .error ec) : IsTarError ec := by
  unfold parseHeader at h
  dsimp only at h
  split at h
  · cases h
    exact isTarError_invalidHeader
  · split at h <;> cases h

theorem handleRegularFile_error {h : Header} {ec : ErrorCode}
    (herror : handleRegularFile h = .error ec) : IsTarError ec := by
  unfold handleRegularFile at herror
  dsimp only at herror
  generalize (if isHeaderOnlyType h.typeflag = true then 0 else h.size) = nb
    at herror
  split at herror <;> cases herror
  exact isTarError_invalidHeader

theorem mergeNumber_codes (rt : Runtime) (h : Header) (k v : Bytes) :
    (∀ ec, mergeNumber rt h k v = .error ec → IsTarError ec) ∧
      ∀ h' ec, mergeNumber rt h k v = .ok (h', some ec) → IsTarError ec := by
  unfold mergeNumber
  split
  · split
    · refine ⟨by simp, ?_⟩
      rintro _ _ ⟨⟩
      exact isTarError_invalidValue _ _ _
    · exact ⟨by simp, by simp⟩
  split
  · split
    · refine ⟨?_, by simp⟩
      rintro _ ⟨⟩
      exact isTarError_invalidValue _ _ _
    · exact ⟨by simp, by simp⟩
  split
  · split
    · refine ⟨?_, by simp⟩
      rintro _ ⟨⟩
      exact isTarError_invalidValue _ _ _
    · exact ⟨by simp, by simp⟩
  split <;> exact ⟨by simp, by simp⟩

theorem mergeRecord_codes (rt : Runtime) (h : Header) (k v : Bytes) :
    (∀ ec, mergeRecord rt h k v = .error ec → IsTarError ec) ∧
      ∀ h' ec, mergeRecord rt h k v = .ok (h', some ec) → IsTarError ec := by
  unfold mergeRecord
  split
  · exact ⟨by simp, by simp⟩
  split
  · exact ⟨by simp, by simp⟩
  split
  · split
    · rename_i htime
      refine ⟨?_, by simp⟩
      rintro _ ⟨⟩
      exact parsePAXTime_error htime
    · exact ⟨by simp, by simp⟩
  · exact mergeNumber_codes rt h k v

/-! ## `Next` -/

variable {R : ExtractReader} {P : ErrorCode → Prop}

/-- A failure that assigns a code assigns one with the property. -/
def Failure.Sat (P : ErrorCode → Prop) (e : Failure) : Prop :=
  ∀ ec, e = some ec → P ec

theorem failure_some {ec : ErrorCode} (h : P ec) :
    Failure.Sat P (some ec) := by
  rintro _ ⟨⟩
  exact h

theorem failure_getD {e : Failure} {ec : ErrorCode} (he : Failure.Sat P e)
    (hec : P ec) : P (e.getD ec) := by
  cases e with
  | none => exact hec
  | some ec' => exact he ec' rfl

/-- Every code that can be assigned has a property. -/
structure Codes (R : ExtractReader) (P : ErrorCode → Prop) : Prop where
  ended : ∀ message, P (ErrorCode.make ErrorCode.errEnded message)
  tar : ∀ ec, IsTarError ec → P ec
  read : ∀ {n s s' e}, R.read n s = some (.error e, s') → Failure.Sat P e
  discard : ∀ {k s s' e}, R.discard k s = some (.error e, s') →
    Failure.Sat P e

theorem mergeRecords_code (hP : ∀ ec, IsTarError ec → P ec) (rt : Runtime)
    (records : PaxRecords) :
    ∀ (h : Header) {ec : ErrorCode}, P ec →
      P (mergeRecords rt records h ec).2.2 := by
  induction records with
  | nil =>
      intro h ec hec
      exact hec
  | cons record records ih =>
      intro h ec hec
      obtain ⟨herror, hassigned⟩ := mergeRecord_codes rt h record.1 record.2
      unfold mergeRecords
      split
      · rename_i ec' hmerge
        exact hP ec' (herror ec' hmerge)
      · rename_i h' assigned hmerge
        apply ih
        cases assigned with
        | none => exact hec
        | some ec' => exact hP ec' (hassigned h' ec' hmerge)

theorem mergePAX_code (hP : ∀ ec, IsTarError ec → P ec) (rt : Runtime)
    (h : Header) (records : PaxRecords) {ec : ErrorCode} (hec : P ec) :
    P (mergePAX rt h records ec).2.2 := by
  have hmerge := mergeRecords_code hP rt (rt.iterate records) h hec
  unfold mergePAX
  split <;> rename_i heq <;> rw [heq] at hmerge <;> exact hmerge

theorem nextHeader_ec {l l' : NextLoop R} {outcome : Except Failure Header}
    (h : nextHeader R l = some (outcome, l')) : l'.ec = l.ec := by
  unfold nextHeader at h
  split at h
  · contradiction
  · cases h
    rfl
  · split at h
    · contradiction
    · cases h
      rfl
    · split at h
      · contradiction
      · cases h
        rfl
      · split at h <;> cases h <;> rfl

namespace Codes

variable (codes : Codes R P)

include codes

theorem readFull_error {calls : Nat} :
    ∀ {n : Nat} {s s' : R.State} {e : Failure},
      readFull R calls n s = some (.error e, s') → Failure.Sat P e := by
  induction calls with
  | zero =>
      intro n s s' e h
      cases n with
      | zero => cases h
      | succ n =>
          cases h
          exact failure_some (codes.ended _)
  | succ calls ih =>
      intro n s s' e h
      cases n with
      | zero => cases h
      | succ n =>
          unfold readFull at h
          split at h
          · contradiction
          · rename_i hread
            cases h
            exact codes.read hread
          · split at h
            · cases h
              exact failure_some (codes.ended _)
            · split at h <;> cases h
              rename_i hrest
              exact ih hrest

theorem readHeader_error {s s' : R.State} {e : Failure}
    (h : readHeader R s = some (.error e, s')) : Failure.Sat P e := by
  unfold readHeader at h
  split at h
  · contradiction
  · rename_i hblock
    cases h
    exact codes.readFull_error hblock
  · split at h
    · split at h
      · contradiction
      · rename_i hblock
        cases h
        exact codes.readFull_error hblock
      · split at h <;> cases h
        · exact failure_some (codes.ended _)
        · exact failure_some (codes.tar _ isTarError_invalidHeader)
    · split at h
      · rename_i hparse
        cases h
        exact failure_some (codes.tar _ (parseHeader_error hparse))
      · cases h

theorem nextHeader_error {l l' : NextLoop R} {e : Failure}
    (h : nextHeader R l = some (.error e, l')) : Failure.Sat P e := by
  unfold nextHeader at h
  split at h
  · contradiction
  · rename_i hfirst
    cases h
    exact codes.discard hfirst
  · split at h
    · contradiction
    · rename_i hsecond
      cases h
      exact codes.discard hsecond
    · split at h
      · contradiction
      · rename_i hread
        cases h
        exact codes.readHeader_error hread
      · split at h <;> cases h
        rename_i hregular
        exact failure_some (codes.tar _ (handleRegularFile_error hregular))

theorem nextPax_code {rt : Runtime} {h : Header} {l : NextLoop R}
    (hl : P l.ec) (step : Step (NextLoop R) (NextResult R))
    (hstep : nextPax rt R h l = some step) :
    step.Sat (fun l => P l.ec) (fun r => P r.ec) := by
  unfold nextPax at hstep
  dsimp only at hstep
  split at hstep
  · contradiction
  · rename_i hread
    cases hstep
    exact failure_getD (codes.readFull_error hread) hl
  · split at hstep
    · rename_i hparse
      cases hstep
      exact codes.tar _ (parsePAXData_error hparse)
    · split at hstep <;> cases hstep
      · exact mergePAX_code codes.tar rt _ _ hl
      · exact hl

theorem nextLong_code {h : Header} {l : NextLoop R} (hl : P l.ec)
    (step : Step (NextLoop R) (NextResult R))
    (hstep : nextLong R h l = some step) :
    step.Sat (fun l => P l.ec) (fun r => P r.ec) := by
  unfold nextLong at hstep
  split at hstep
  · contradiction
  · rename_i hread
    cases hstep
    exact failure_getD (codes.readFull_error hread) hl
  · split at hstep <;> cases hstep <;> exact hl

theorem nextEntry_code (rt : Runtime) (h : Header) {l : NextLoop R}
    (hl : P l.ec) : P (nextEntry rt h l).ec := by
  have hmerge := mergePAX_code codes.tar rt h l.paxHdrs hl
  unfold nextEntry completeHeader
  rcases hpax : mergePAX rt h l.paxHdrs l.ec with ⟨_ | _, h', ec⟩ <;>
    rw [hpax] at hmerge
  · exact hmerge
  · dsimp only
    split
    · rename_i hregular
      exact codes.tar _ (handleRegularFile_error hregular)
    · exact hmerge

/-- The error code after `Next` is one of those that can be assigned, or the
one before. -/
theorem next_code {rt : Runtime} {fuel : Nat} {ec : ErrorCode} {r : Reader R}
    {result : NextResult R} (hec : P ec)
    (h : next rt R fuel ec r = some result) : P result.ec := by
  refine loop_spec (I := fun l : NextLoop R => P l.ec)
    (Q := fun result => P result.ec) ?_ hec h
  intro l step hl hstep
  unfold nextBody at hstep
  split at hstep
  · contradiction
  · rename_i hheader
    cases hstep
    refine failure_getD (codes.nextHeader_error hheader) ?_
    rw [nextHeader_ec hheader]
    exact hl
  · rename_i hheader
    rw [← nextHeader_ec hheader] at hl
    split at hstep
    · exact codes.nextPax_code hl step hstep
    split at hstep
    · exact codes.nextLong_code hl step hstep
    · cases hstep
      exact codes.nextEntry_code rt _ hl

end Codes

end Baulk.Tar
