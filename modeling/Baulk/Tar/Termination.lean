import Baulk.Tar.View

/-!
# Termination of `decompress`

Each loop of the five functions `decompress` ends on every file, whatever the
compressed data are.  Those for gzip and bzip2 read a new block in every round
but the first, so that nothing is expected of their libraries.  Those for zstd
and xz call the library again while it has input; they rely on it not to stand
still for ever.  That for Brotli is never entered.
-/

namespace Baulk.Tar

open Support (Step loop loop_spec loop_total_of_progress)
open Zip (StreamCodec)

/-- A codec loses patience: calls with room for output that neither take input
nor produce output, and whose status lets the caller go on, are finitely many in
a row.  liblzma bears one such call, libzstd sixteen. -/
structure Patience (codec : StreamCodec) (idles : Int → Bytes → Int → Prop) where
  left : codec.State → Nat
  idle : ∀ {s a given n}, 0 < n → idles a given (codec.run s a given n).ret →
    (codec.run s a given n).consumed = 0 → (codec.run s a given n).output = [] →
    left (codec.run s a given n).state < left s

/-- What a decompressor returns, if not an error. -/
def OutputSat (ended : σ → Prop) (r : Except Failure Bytes × σ) : Prop :=
  ∀ out, r.1 = .ok out → out ≠ [] ∨ ended r.2

/-! ## gzip and bzip2 -/

namespace BlockStream

variable {codec : StreamCodec}

/-- Twice what is unread, and one for a round that does not read. -/
def ahead (file : SourceFile) (s : BlockStream codec) : Nat :=
  2 * (file.unread s.file).length +
    if s.availOut ≠ 0 ∨ s.pickBytes = 0 then 0 else 1

theorem step_sat (fatal : Int → Option ErrorCode) (s : BlockStream codec) :
    (step fatal s).Sat (fun s' => s'.file = s.file ∧ s'.availOut ≠ 0)
      (OutputSat fun _ => False) := by
  have hroom : 0 < outsize := by decide
  unfold step
  dsimp only
  split
  · intro out hout
    cases hout
  · split
    · next hempty =>
      rw [List.isEmpty_iff] at hempty
      refine ⟨rfl, ?_⟩
      dsimp only
      rw [hempty, List.length_nil, Nat.sub_zero]
      exact hroom.ne'
    · next hempty =>
      intro out hout
      cases hout
      exact .inl fun hnil => hempty (List.isEmpty_iff.mpr hnil)

theorem ahead_of_availOut {file : SourceFile} {s : BlockStream codec}
    (h : s.availOut ≠ 0) : ahead file s = 2 * (file.unread s.file).length := by
  rw [ahead, if_pos (.inl h), Nat.add_zero]

theorem body_total (file : SourceFile) (fatal : Int → Option ErrorCode)
    (s : BlockStream codec) :
    ∃ next, body file fatal s = some next ∧
      next.Sat (fun s' => ahead file s' < ahead file s) (OutputSat fun _ => False) := by
  unfold body
  split
  · next hrefill =>
    split
    · refine ⟨_, rfl, ?_⟩
      intro out hout
      cases hout
    · next got f hread =>
      split
      · refine ⟨_, rfl, ?_⟩
        intro out hout
        cases hout
      · next hempty =>
        obtain ⟨hunread, -⟩ := FileReader.read_ok_unread hread (by decide)
        have hpos : 0 < got.length :=
          List.length_pos_iff.mpr fun hnil => hempty (List.isEmpty_iff.mpr hnil)
        have hlength := congrArg List.length hunread
        rw [List.length_append] at hlength
        refine ⟨_, rfl, (step_sat fatal _).mono ?_ fun _ hr => hr⟩
        rintro s' ⟨hfile, havail⟩
        rw [ahead_of_availOut havail, hfile, ahead, if_pos hrefill]
        dsimp only
        omega
  · next hkeep =>
    refine ⟨_, rfl, (step_sat fatal s).mono ?_ fun _ hr => hr⟩
    rintro s' ⟨hfile, havail⟩
    rw [ahead_of_availOut havail, hfile, ahead, if_neg hkeep]
    exact Nat.lt_succ_self _

theorem loop_total (file : SourceFile) (fatal : Int → Option ErrorCode)
    (s : BlockStream codec) :
    ∃ bound, ∀ fuel, bound < fuel → ∃ r,
      loop (body file fatal) fuel s = some r ∧ OutputSat (fun _ => False) r := by
  refine loop_total_of_progress (I := fun _ => True) (ahead file) (fun _ => 0)
    (fun s _ => ?_) trivial
  obtain ⟨next, hnext, hsat⟩ := body_total file fatal s
  exact ⟨next, hnext, hsat.mono (fun _ hless => ⟨trivial, .inl hless⟩) fun _ hr => hr⟩

end BlockStream

/-! ## zstd -/

/-- The calls of libzstd that `decompress` repeats. -/
def zstdIdles (c : Zip.ZstdCodec) (_ : Int) (given : Bytes) (ret : Int) : Prop :=
  given ≠ [] ∧ c.isError ret = false

namespace ZstdStream

variable {c : Zip.ZstdCodec}

theorem step_sat (patience : Patience c.codec (zstdIdles c)) (file : SourceFile)
    {s : ZstdStream c.codec} (hinput : s.input ≠ []) :
    (step c s).Sat
      (fun s' => left file s' < left file s ∨
        left file s' = left file s ∧ patience.left s'.codec < patience.left s.codec)
      (OutputSat fun _ => False) := by
  have hroom : 0 < Zip.zstdOutSize := by decide
  have hconsumed := (c.codec.run s.codec 0 s.input Zip.zstdOutSize).consumed_le
  unfold step
  dsimp only
  split
  · intro out hout
    cases hout
  · next hgood =>
    split
    · next hempty =>
      rw [List.isEmpty_iff] at hempty
      simp only [Step.Sat, left, List.length_append, List.length_drop]
      rcases Nat.eq_zero_or_pos (c.codec.run s.codec 0 s.input Zip.zstdOutSize).consumed
        with hnone | hsome
      · refine .inr ⟨by omega, ?_⟩
        exact patience.idle hroom ⟨hinput, Bool.not_eq_true _ ▸ hgood⟩ hnone hempty
      · exact .inl (by omega)
    · next hempty =>
      intro out hout
      cases hout
      exact .inl fun hnil => hempty (List.isEmpty_iff.mpr hnil)

theorem body_total (patience : Patience c.codec (zstdIdles c)) (file : SourceFile)
    (s : ZstdStream c.codec) :
    ∃ next, body c file s = some next ∧
      next.Sat (fun s' => left file s' < left file s ∨
        left file s' = left file s ∧ patience.left s'.codec < patience.left s.codec)
        (OutputSat fun _ => False) := by
  unfold body
  split
  · next hrefill =>
    rw [List.isEmpty_iff] at hrefill
    split
    · refine ⟨_, rfl, ?_⟩
      intro out hout
      cases hout
    · next got f hread =>
      split
      · refine ⟨_, rfl, ?_⟩
        intro out hout
        cases hout
      · next hempty =>
        rw [List.isEmpty_iff] at hempty
        obtain ⟨hunread, -⟩ := FileReader.read_ok_unread hread (by decide)
        have hleft : left file { s with file := f, input := got } = left file s := by
          unfold left
          dsimp only
          rw [hrefill, List.nil_append, hunread]
        have hstep := step_sat patience file (s := { s with file := f, input := got }) hempty
        rw [hleft] at hstep
        exact ⟨_, rfl, hstep⟩
  · next hkeep =>
    rw [List.isEmpty_iff] at hkeep
    exact ⟨_, rfl, step_sat patience file hkeep⟩

theorem loop_total (patience : Patience c.codec (zstdIdles c)) (file : SourceFile)
    (s : ZstdStream c.codec) :
    ∃ bound, ∀ fuel, bound < fuel → ∃ r,
      loop (body c file) fuel s = some r ∧ OutputSat (fun _ => False) r := by
  refine loop_total_of_progress (I := fun _ => True) (left file)
    (fun s => patience.left s.codec) (fun s _ => ?_) trivial
  obtain ⟨next, hnext, hsat⟩ := body_total patience file s
  exact ⟨next, hnext, hsat.mono (fun _ hless => ⟨trivial, hless⟩) fun _ hr => hr⟩

end ZstdStream

/-! ## xz -/

/-- The calls of liblzma that `decompress` repeats: `LZMA_OK`, and there is input
unless the codec is told to finish. -/
def xzIdles (action : Int) (given : Bytes) (ret : Int) : Prop :=
  (given = [] → action = Zip.lzmaFinish) ∧ ret = 0

namespace XzStream

variable {codec : StreamCodec}

/-- The output that waits does not fill the buffer. -/
def HasRoom (s : XzStream codec) : Prop :=
  s.pending.length < xzoutsize

/-- How `decompress` ends. -/
def EndSat (r : Except Failure Bytes × XzStream codec) : Prop :=
  HasRoom r.2 ∧ OutputSat (fun s => s.ret = lzmaStreamEnd) r

theorem step_sat (patience : Patience codec xzIdles) (file : SourceFile)
    {s : XzStream codec} (hs : HasRoom s) :
    (step s).Sat
      (fun s' => HasRoom s' ∧ (left file s' < left file s ∨
        left file s' = left file s ∧ patience.left s'.codec < patience.left s.codec))
      EndSat := by
  have hfull : 0 < xzoutsize := by decide
  have hroom : 0 < xzoutsize - s.pending.length := Nat.sub_pos_of_lt hs
  unfold step
  generalize haction : (if s.input.isEmpty then Zip.lzmaFinish else Zip.lzmaRun) = action
  have hfinish : s.input = [] → action = Zip.lzmaFinish := by
    intro hnil
    rw [← haction, hnil]
    rfl
  have hconsumed := (codec.run s.codec action s.input
    (xzoutsize - s.pending.length)).consumed_le
  have houtput := (codec.run s.codec action s.input
    (xzoutsize - s.pending.length)).output_le
  have hidle := @patience.idle s.codec action s.input _ hroom
  generalize codec.run s.codec action s.input (xzoutsize - s.pending.length) = r
    at hconsumed houtput hidle ⊢
  have hlength : (s.pending ++ r.output).length = s.pending.length + r.output.length :=
    List.length_append
  dsimp only
  split
  · next hdone =>
    refine ⟨hfull, ?_⟩
    intro out hout
    cases hout
    refine hdone.imp (fun hall hnil => ?_) id
    rw [hnil] at hall
    exact hfull.ne hall
  · next hmore =>
    rw [not_or] at hmore
    have hpending : (s.pending ++ r.output).length < xzoutsize := by omega
    split
    · refine ⟨hpending, ?_⟩
      intro out hout
      cases hout
    · next hok =>
      rw [not_not] at hok
      refine ⟨hpending, ?_⟩
      simp only [left, List.length_append, List.length_drop]
      by_cases hnone : r.consumed = 0 ∧ r.output = []
      · obtain ⟨hinput, hempty⟩ := hnone
        refine .inr ⟨?_, hidle ⟨hfinish, hok⟩ hinput hempty⟩
        rw [hinput, hempty, List.length_nil, Nat.sub_zero, Nat.add_zero]
      · have hsome : 0 < r.consumed ∨ 0 < r.output.length := by
          rw [List.length_pos_iff]
          by_contra hnot
          rw [not_or, Nat.not_lt, Nat.le_zero, not_not] at hnot
          exact hnone hnot
        exact .inl (by omega)

theorem body_total (patience : Patience codec xzIdles) (file : SourceFile)
    {s : XzStream codec} (hs : HasRoom s) :
    ∃ next, body file s = some next ∧
      next.Sat
        (fun s' => HasRoom s' ∧ (left file s' < left file s ∨
          left file s' = left file s ∧ patience.left s'.codec < patience.left s.codec))
        EndSat := by
  unfold body
  split
  · split
    · refine ⟨_, rfl, hs, ?_⟩
      intro out hout
      cases hout
    · next got f hread =>
      obtain ⟨hunread, -⟩ := FileReader.read_ok_unread hread (by decide)
      have hleft : left file { s with file := f, input := got } ≤ left file s := by
        have hlength := congrArg List.length hunread
        rw [List.length_append] at hlength
        simp only [left, List.length_append]
        omega
      refine ⟨_, rfl, (step_sat patience file (s := { s with file := f, input := got })
        hs).mono ?_ fun _ hr => hr⟩
      rintro s' ⟨hs', hless⟩
      refine ⟨hs', ?_⟩
      dsimp only at hless
      omega
  · exact ⟨_, rfl, step_sat patience file hs⟩

theorem loop_body_sat (patience : Patience codec xzIdles) {file : SourceFile}
    {fuel : Nat} {s : XzStream codec} {r : Except Failure Bytes × XzStream codec}
    (hs : HasRoom s) (h : loop (body file) fuel s = some r) : EndSat r := by
  refine loop_spec (I := HasRoom) (Q := EndSat) ?_ hs h
  intro s step hs hstep
  obtain ⟨next, hnext, hsat⟩ := body_total patience file hs
  rw [hnext, Option.some.injEq] at hstep
  exact hstep ▸ hsat.mono (fun s' hs' => hs'.1) fun _ hr => hr

end XzStream

/-! ## All decompressors -/

namespace Compression

variable (libs : Libraries) (file : SourceFile)

/-- The state of each decompressor. -/
def Stream : Compression → Type
  | gz => BlockStream libs.zlib
  | bz2 => BlockStream libs.bzlib
  | zstd => ZstdStream libs.zstd.codec
  | xz => XzStream libs.lzma
  | brotli => BrotliStream libs.brotli

/-- `decompress` on such a state. -/
def decompress (fuel : Nat) :
    (k : Compression) → k.Stream libs → Option (Except Failure Bytes × k.Stream libs)
  | gz => (gzipDecompressor file libs.zError libs.zlib fuel).decompress
  | bz2 => (bzipDecompressor file libs.bzlib fuel).decompress
  | zstd => (zstdDecompressor file libs.zstd fuel).decompress
  | xz => (xzDecompressor file libs.lzma fuel).decompress
  | brotli => (brotliDecompressor file libs.brotli fuel).decompress

/-- The state after `Initialize`. -/
def initial (f₀ : FileState) : (k : Compression) → k.Stream libs
  | gz => gz.init libs file 0 f₀
  | bz2 => bz2.init libs file 0 f₀
  | zstd => zstd.init libs file 0 f₀
  | xz => xz.init libs file 0 f₀
  | brotli => brotli.init libs file 0 f₀

/-- The states that any number of calls lead to.  `Read`, `Discard` and `WriteTo`
change the state by calls of `decompress` only. -/
inductive Reached (f₀ : FileState) (k : Compression) : k.Stream libs → Prop
  | initial : Reached f₀ k (k.initial libs file f₀)
  | decompress {fuel : Nat} {s s' : k.Stream libs} {result : Except Failure Bytes} :
      Reached f₀ k s → k.decompress libs file fuel s = some (result, s') →
      Reached f₀ k s'

/-- What is expected of the libraries. -/
def Patient : Compression → Prop
  | zstd => Nonempty (Patience libs.zstd.codec (zstdIdles libs.zstd))
  | xz => Nonempty (Patience libs.lzma xzIdles)
  | _ => True

/-- Only xz tells the end of the stream from other output. -/
def AtStreamEnd : (k : Compression) → k.Stream libs → Prop
  | xz => fun s => s.ret = lzmaStreamEnd
  | _ => fun _ => False

end Compression

open Compression

variable {libs : Libraries} {file : SourceFile} {f₀ : FileState}

theorem xz_hasRoom (patience : Patience libs.lzma xzIdles) {s : xz.Stream libs}
    (hs : Reached libs file f₀ xz s) : XzStream.HasRoom s := by
  induction hs with
  | initial => exact (by decide : 0 < xzoutsize)
  | decompress _ hcall ih =>
      unfold Compression.decompress xzDecompressor at hcall
      dsimp only at hcall
      split at hcall
      · cases hcall
        exact ih
      · exact (XzStream.loop_body_sat patience ih hcall).1

/-- `BrotliDecoderResult result{}` is an error, and no call changes it. -/
theorem brotli_result {s : brotli.Stream libs} (hs : Reached libs file f₀ brotli s) :
    s.result = 0 := by
  induction hs with
  | initial => rfl
  | decompress _ hcall ih =>
      unfold Compression.decompress brotliDecompressor at hcall
      dsimp only at hcall
      rw [if_pos ih] at hcall
      cases hcall
      exact ih

/-- Every call of `decompress` ends, and if it succeeds then with new output, for xz
possibly with none at the end of the stream. -/
theorem decompress_total {k : Compression} (hpatient : k.Patient libs)
    {s : k.Stream libs} (hs : Reached libs file f₀ k s) :
    ∃ bound, ∀ fuel, bound < fuel →
      ∃ result s', k.decompress libs file fuel s = some (result, s') ∧
        ∀ out, result = .ok out → out ≠ [] ∨ k.AtStreamEnd libs s' := by
  cases k with
  | gz =>
      obtain ⟨bound, hbound⟩ := BlockStream.loop_total file (gzipFatal libs.zError) s
      refine ⟨bound, fun fuel hfuel => ?_⟩
      obtain ⟨⟨result, s'⟩, hloop, hsat⟩ := hbound fuel hfuel
      exact ⟨result, s', hloop, hsat⟩
  | bz2 =>
      obtain ⟨bound, hbound⟩ := BlockStream.loop_total file bzipFatal s
      refine ⟨bound, fun fuel hfuel => ?_⟩
      obtain ⟨⟨result, s'⟩, hloop, hsat⟩ := hbound fuel hfuel
      by_cases hend : s.ret = bzStreamEnd
      · refine ⟨_, _, if_pos hend, ?_⟩
        intro out hout
        cases hout
      · exact ⟨result, s', (if_neg hend).trans hloop, hsat⟩
  | zstd =>
      obtain ⟨patience⟩ := hpatient
      obtain ⟨bound, hbound⟩ := ZstdStream.loop_total patience file s
      refine ⟨bound, fun fuel hfuel => ?_⟩
      obtain ⟨⟨result, s'⟩, hloop, hsat⟩ := hbound fuel hfuel
      exact ⟨result, s', hloop, hsat⟩
  | xz =>
      obtain ⟨patience⟩ := hpatient
      obtain ⟨bound, hbound⟩ := loop_total_of_progress (XzStream.left file)
        (fun s => patience.left s.codec)
        (fun s hs => XzStream.body_total patience file hs) (xz_hasRoom patience hs)
      refine ⟨bound, fun fuel hfuel => ?_⟩
      obtain ⟨⟨result, s'⟩, hloop, -, hsat⟩ := hbound fuel hfuel
      by_cases hend : s.ret = lzmaStreamEnd
      · refine ⟨_, _, if_pos hend, ?_⟩
        intro out hout
        cases hout
      · exact ⟨result, s', (if_neg hend).trans hloop, hsat⟩
  | brotli =>
      refine ⟨0, fun fuel _ => ⟨_, _, if_pos (brotli_result hs), ?_⟩⟩
      intro out hout
      cases hout

/-! ## A file that is too short -/

/-- liblzma on less than a stream header: it takes what there is, and then bears
one call without input. -/
def starvedLzma : StreamCodec where
  State := Bool
  init := false
  run starved _ input _ :=
    { state := input.isEmpty
      ret := if input.isEmpty && starved then 10 else 0
      consumed := input.length
      output := []
      consumed_le := Nat.le_refl _
      output_le := Nat.zero_le _ }

def starvedLzma_patience : Patience starvedLzma xzIdles where
  left starved := bif starved then 0 else 1
  idle {starved a given n} _ hidles hconsumed _ := by
    have hnil : given = [] := List.length_eq_zero_iff.mp hconsumed
    subst hnil
    cases starved with
    | false => exact Nat.zero_lt_one
    | true => cases hidles.2

def starvedLibraries : Libraries :=
  { copyLibraries with lzma := starvedLzma }

/-- The first call on a file with one byte ends. -/
theorem decompress_total_starved :
    ∃ bound, ∀ fuel, bound < fuel →
      ∃ result s', xz.decompress starvedLibraries letterFile fuel
          (xz.initial starvedLibraries letterFile ⟨0, 0⟩) = some (result, s') ∧
        ∀ out, result = .ok out → out ≠ [] ∨ xz.AtStreamEnd starvedLibraries s' :=
  decompress_total (k := xz) ⟨starvedLzma_patience⟩ .initial

end Baulk.Tar
