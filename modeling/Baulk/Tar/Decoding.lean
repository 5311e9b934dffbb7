import Baulk.Tar.Decompressors

/-!
# Decoders

What a codec is expected to do with a compressed stream, in the terms of the
documentation of the libraries: however the input and the room for output are
cut into pieces, the output is one fixed sequence of bytes.  The decoding of an
input ends in one of three ways.  It is complete when the codec has reported
the end of the stream; the input may be exhausted before; or the codec reports
an error.
-/

namespace Baulk.Tar

open Support (Step loop loop_spec loop_returns)
open Zip (StreamCodec CodecStep)

/-- How a decoding ends. -/
inductive Fate where
  | complete
  | truncated
  | corrupt
  deriving DecidableEq

/-- A codec turns `input` into `D`.  Only the calls that a reader can make are
spoken of: an action, the bytes given, all that are unread, and the room for
output.  Nothing is said about a call that returns a fatal status. -/
structure Decoding (codec : StreamCodec)
    (calls : Int → Bytes → Bytes → Nat → Prop) (fatal : Int → Prop)
    (input D : Bytes) where
  /-- In this state, with this input unread, this output is still to come. -/
  Ahead : codec.State → Bytes → Bytes → Prop
  start : Ahead codec.init input D
  /-- The codec is given the next bytes of the input. -/
  run : ∀ {s unread rest a given n}, Ahead s unread rest →
    given <+: unread → calls a given unread n →
    ¬fatal (codec.run s a given n).ret →
    (codec.run s a given n).output <+: rest ∧
      Ahead (codec.run s a given n).state
        (unread.drop (codec.run s a given n).consumed)
        (rest.drop (codec.run s a given n).output.length)

/-- How a decompressor fails when `rest` is still to come: by an error of the
system, without an error code or with `ErrEnded` when there is nothing more, or
with an error of the codec. -/
inductive Stops (file : SourceFile) (fate : Fate) (rest : Bytes) :
    Failure → Prop
  | system {n : Nat} {e : SystemError} {label : WString} :
      file.fault n = some e → Stops file fate rest (some (e.toErrorCode label))
  | silent : fate ≠ .corrupt → rest = [] → Stops file fate rest none
  | ended {message : WString} : fate = .complete → rest = [] →
      Stops file fate rest (some (ErrorCode.make ErrorCode.errEnded message))
  | broken {message : WString} : fate ≠ .complete ∨ rest = [] →
      Stops file fate rest (some (extractGeneral message))

/-! ## Blocks of the file -/

/-- The bytes that were not read yet. -/
def SourceFile.unread (file : SourceFile) (f : FileState) : Bytes :=
  file.content.bytes.drop f.pos

namespace FileReader

variable {file : SourceFile}

theorem read_ok_unread {len : Nat} {f f' : FileState} {got : Bytes}
    (h : read file len f = (.ok got, f')) (hlen : 0 < len % 2 ^ 32) :
    file.unread f = got ++ file.unread f' ∧
      (got = [] → file.unread f = []) := by
  unfold read readFile at h
  split at h
  · cases h
  rename_i got' f₁ hread
  cases h
  split at hread <;> cases hread
  have hunread : file.unread f =
      segment file.content.bytes f.pos (len % 2 ^ 32) ++
        (file.unread f).drop (len % 2 ^ 32) :=
    (List.take_append_drop (len % 2 ^ 32) (file.unread f)).symm
  refine ⟨?_, ?_⟩
  · conv_lhs => rw [hunread]
    rw [SourceFile.unread, SourceFile.unread, List.drop_drop,
      length_segment, List.append_cancel_left_eq]
    rcases le_total (len % 2 ^ 32) (file.content.bytes.length - f.pos) with
      hle | hle
    · rw [min_eq_left hle]
    · rw [min_eq_right hle, List.drop_of_length_le (by omega),
        List.drop_of_length_le (by dsimp only; omega)]
  · intro hnil
    have hlength := length_segment file.content.bytes f.pos (len % 2 ^ 32)
    rw [hnil, List.length_nil] at hlength
    rw [SourceFile.unread, List.drop_eq_nil_iff]
    omega

theorem read_error_unread {len : Nat} {f f' : FileState} {e : Failure}
    (h : read file len f = (.error e, f')) :
    file.unread f' = file.unread f ∧ ∃ n err,
      file.fault n = some err ∧ e = some (err.toErrorCode (wide "ReadFile: "))
    := by
  unfold read readFile at h
  split at h
  · rename_i e' f₁ hread
    cases h
    split at hread <;> cases hread
    rename_i hfault
    exact ⟨rfl, _, _, hfault, rfl⟩
  · cases h

end FileReader

/-! ## gzip and bzip2 -/

/-- Calls of zlib and libbz2 have room for output; the input may be used up. -/
def BlockCall (a : Int) (_ _ : Bytes) (n : Nat) : Prop :=
  a = 0 ∧ 0 < n

/-- zlib and libbz2 stop at the end of a stream, and else only when they have
used up the input or the room for output. -/
structure BlockDecoding (codec : StreamCodec) (fatal : Int → Prop)
    (streamEnd : Int) (input D : Bytes) (fate : Fate)
    extends Decoding codec BlockCall fatal input D where
  Ended : codec.State → Prop
  empty : input = [] → D = [] ∧ fate = .truncated
  eager : ∀ {s unread rest given n}, Ahead s unread rest →
    given <+: unread → 0 < n → ¬fatal (codec.run s 0 given n).ret →
    (codec.run s 0 given n).ret ≠ streamEnd →
    (codec.run s 0 given n).output.length = n ∨
      (codec.run s 0 given n).consumed = given.length
  /-- Without an end, output is held back only for lack of room. -/
  drained : ∀ {s unread rest given n}, Ahead s unread rest →
    given <+: unread → 0 < n → ¬fatal (codec.run s 0 given n).ret →
    (codec.run s 0 given n).ret ≠ streamEnd →
    (codec.run s 0 given n).output.length < n →
    unread.drop (codec.run s 0 given n).consumed = [] →
    rest.drop (codec.run s 0 given n).output.length = [] ∧
      fate = .truncated
  ended : ∀ {s unread rest given n}, Ahead s unread rest →
    given <+: unread → 0 < n → (codec.run s 0 given n).ret = streamEnd →
    rest.drop (codec.run s 0 given n).output.length = [] ∧
      fate = .complete ∧ Ended (codec.run s 0 given n).state
  broken : ∀ {s unread rest given n}, Ahead s unread rest →
    given <+: unread → 0 < n → fatal (codec.run s 0 given n).ret →
    fate = .corrupt
  end_fatal : ¬fatal streamEnd
  /-- Behind the end there is nothing. -/
  beyond : ∀ {s}, Ended s → ∀ given, ∀ n > 0,
    (codec.run s 0 given n).output = [] ∧
      ¬fatal (codec.run s 0 given n).ret ∧
      Ended (codec.run s 0 given n).state

namespace BlockStream

variable {codec : StreamCodec} {file : SourceFile}
  {fatal : Int → Option ErrorCode} {streamEnd : Int} {D : Bytes} {fate : Fate}
  {f₀ : FileState}

/-- The stream is behind the output that was delivered. -/
def Stands (decoding : BlockDecoding codec (fun ret => fatal ret ≠ none)
    streamEnd (file.unread f₀) D fate) (s : BlockStream codec) (rest : Bytes) :
    Prop :=
  (decoding.Ended s.codec ∧ rest = [] ∧ fate = .complete ∨
    decoding.Ahead s.codec (s.input ++ file.unread s.file) rest ∧
      (s.availOut ≠ 0 ∨ s.pickBytes = 0 → s.input = [] ∧
        (file.unread s.file = [] → rest = [] ∧ fate = .truncated))) ∧
    (s.ret = streamEnd → rest = [] ∧ fate = .complete)

variable {decoding : BlockDecoding codec (fun ret => fatal ret ≠ none)
  streamEnd (file.unread f₀) D fate} {s : BlockStream codec} {rest : Bytes}

theorem stands_start (hend : streamEnd ≠ 0) :
    Stands decoding { file := f₀, codec := codec.init } D :=
  ⟨.inr ⟨decoding.start, fun _ => ⟨rfl, decoding.empty⟩⟩,
    fun h => absurd h.symm hend⟩

/-- What a call of the codec does; `hsplit` says that it is allowed. -/
def StepSpec (decoding : BlockDecoding codec (fun ret => fatal ret ≠ none)
    streamEnd (file.unread f₀) D fate) (rest : Bytes) :
    Step (BlockStream codec) (Except Failure Bytes × BlockStream codec) →
      Prop :=
  Step.Sat
    (fun s => Stands decoding s rest ∧ s.availOut ≠ 0)
    (fun r => match r with
      | (.ok out, s) => out ≠ [] ∧ out <+: rest ∧
          Stands decoding s (rest.drop out.length)
      | (.error e, s) => Stops file fate rest e ∧
          (fate ≠ .corrupt → Stands decoding s rest))

theorem fatal_none_or (fatal : Int → Option ErrorCode) (ret : Int) :
    fatal ret = none ∨ fatal ret ≠ none := by
  cases fatal ret with
  | none => exact .inl rfl
  | some ec => exact .inr (by simp)

/-- A call in a state that is neither ended nor about to be refilled. -/
theorem step_spec
    (hfatal : ∀ ret ec, fatal ret = some ec → ∃ m, ec = extractGeneral m)
    (hs : decoding.Ended s.codec ∧ rest = [] ∧ fate = .complete ∨
      decoding.Ahead s.codec (s.input ++ file.unread s.file) rest)
    (hpick : s.pickBytes ≠ 0) :
    StepSpec decoding rest (step fatal s) := by
  have hroom : 0 < outsize := by decide
  rcases hs with ⟨hended, rfl, hfate⟩ | hahead
  · obtain ⟨hout, hnot, hended'⟩ := decoding.beyond hended s.input outsize hroom
    rw [not_not] at hnot
    unfold step
    simp only [hnot, hout, List.isEmpty_nil, if_true, List.length_nil,
      Nat.sub_zero]
    exact ⟨⟨.inl ⟨hended', rfl, hfate⟩, fun _ => ⟨rfl, hfate⟩⟩, hroom.ne'⟩
  · have hgiven : s.input <+: s.input ++ file.unread s.file :=
      List.prefix_append _ _
    generalize hr : codec.run s.codec 0 s.input outsize = r
    have hle := r.output_le
    have hconsumed := r.consumed_le
    rcases fatal_none_or fatal r.ret with hnone | hsome
    · have hnot : ¬(fatal (codec.run s.codec 0 s.input outsize).ret ≠ none) :=
        by rw [hr, not_not]; exact hnone
      obtain ⟨hbegins, hahead'⟩ :=
        decoding.run hahead hgiven ⟨rfl, hroom⟩ hnot
      -- Where the stream stands after the call.
      have hstands : Stands decoding { s with
          codec := r.state
          input := s.input.drop r.consumed
          availOut := outsize - r.output.length
          ret := r.ret } (rest.drop r.output.length) := by
        by_cases hend : r.ret = streamEnd
        · obtain ⟨hrest, hfate, hended⟩ :=
            decoding.ended hahead hgiven hroom (by rw [hr, hend])
          rw [hr] at hrest hended
          exact ⟨.inl ⟨hended, hrest, hfate⟩, fun _ => ⟨hrest, hfate⟩⟩
        · have heager := decoding.eager hahead hgiven hroom hnot
            (by rw [hr]; exact hend)
          have hdrained := decoding.drained hahead hgiven hroom hnot
            (by rw [hr]; exact hend)
          rw [hr] at hahead' heager hdrained
          rw [List.drop_append_of_le_length hconsumed] at hahead' hdrained
          refine ⟨.inr ⟨hahead', ?_⟩, fun h => absurd h hend⟩
          rintro (havail | hzero)
          · dsimp only at havail ⊢
            have hall : r.consumed = s.input.length :=
              heager.resolve_left (by omega)
            have hnil : s.input.drop r.consumed = [] := by
              rw [hall, List.drop_length]
            refine ⟨hnil, fun hfile => ?_⟩
            exact hdrained (by omega) (by rw [hnil, hfile]; rfl)
          · exact absurd hzero hpick
      rw [hr] at hbegins
      unfold step
      rw [hr]
      dsimp only
      rw [hnone]
      dsimp only
      split
      · rename_i hempty
        rw [List.isEmpty_iff] at hempty
        rw [hempty, List.length_nil, Nat.sub_zero, List.drop_zero] at hstands
        refine ⟨?_, ?_⟩
        · simpa only [hempty, List.length_nil, Nat.sub_zero] using hstands
        · simp only [hempty, List.length_nil, Nat.sub_zero]
          exact hroom.ne'
      · rename_i hempty
        rw [List.isEmpty_iff] at hempty
        exact ⟨hempty, hbegins, hstands⟩
    · have hcorrupt := decoding.broken hahead hgiven hroom
        (by rw [hr]; exact hsome)
      obtain ⟨ec, hec⟩ := Option.ne_none_iff_exists'.mp hsome
      obtain ⟨m, rfl⟩ := hfatal _ _ hec
      unfold step
      rw [hr]
      dsimp only
      rw [hec]
      refine ⟨.broken (.inl (by rw [hcorrupt]; simp)), ?_⟩
      intro hne
      exact absurd hcorrupt hne

theorem body_spec
    (hfatal : ∀ ret ec, fatal ret = some ec → ∃ m, ec = extractGeneral m)
    (hs : Stands decoding s rest)
    {next : Step (BlockStream codec)
      (Except Failure Bytes × BlockStream codec)}
    (hbody : body file fatal s = some next) :
    StepSpec decoding rest next := by
  unfold body at hbody
  split at hbody
  · rename_i hrefill
    split at hbody
    · rename_i e f hread
      cases hbody
      obtain ⟨hunread, n, err, hfault, rfl⟩ :=
        FileReader.read_error_unread hread
      refine ⟨.system hfault, fun _ => ?_⟩
      unfold Stands
      rw [hunread]
      exact hs
    · rename_i got f hread
      obtain ⟨hunread, hend⟩ :=
        FileReader.read_ok_unread hread (by decide)
      split at hbody <;> cases hbody
      · rename_i hempty
        rw [List.isEmpty_iff] at hempty
        rw [hempty, List.nil_append] at hunread
        refine ⟨?_, fun _ => ?_⟩
        · rcases hs.1 with ⟨-, rfl, hfate⟩ | ⟨-, hdone⟩
          · exact .silent (by rw [hfate]; simp) rfl
          · obtain ⟨-, hrest⟩ := hdone hrefill
            obtain ⟨rfl, hfate⟩ := hrest (hend hempty)
            exact .silent (by rw [hfate]; simp) rfl
        · unfold Stands
          rw [← hunread]
          exact hs
      · rename_i hempty
        rw [List.isEmpty_iff] at hempty
        refine step_spec hfatal ?_ ?_
        · rcases hs.1 with hended | ⟨hahead, hdone⟩
          · exact .inl hended
          · obtain ⟨hnil, -⟩ := hdone hrefill
            rw [hnil, List.nil_append, hunread] at hahead
            exact .inr hahead
        · have hpos := List.length_pos_iff.mpr hempty
          dsimp only
          omega
  · rename_i hkeep
    rw [not_or] at hkeep
    cases hbody
    exact step_spec hfatal (hs.1.imp id And.left) hkeep.2

theorem loop_body_spec
    (hfatal : ∀ ret ec, fatal ret = some ec → ∃ m, ec = extractGeneral m)
    (hs : Stands decoding s rest) {fuel : Nat}
    {r : Except Failure Bytes × BlockStream codec}
    (hloop : loop (body file fatal) fuel s = some r) :
    StepSpec decoding rest (.done r) := by
  refine loop_spec (I := fun s => Stands decoding s rest)
    (Q := fun r => StepSpec decoding rest (.done r)) ?_ hs hloop
  intro s next hs hbody
  have hspec := body_spec hfatal hs hbody
  cases next with
  | next s => exact hspec.1
  | done r => exact hspec

theorem loop_body_returns (codec : StreamCodec) (file : SourceFile)
    (fatal : Int → Option ErrorCode) (s : BlockStream codec) {fuel : Nat}
    (hfuel : file.content.bytes.length + 2 < fuel) :
    ∃ r, loop (body file fatal) fuel s = some r := by
  have hstep : ∀ s : BlockStream codec, ∀ s', step fatal s = .next s' →
      s'.availOut ≠ 0 ∧ s'.file = s.file := by
    intro s s' h
    unfold step at h
    dsimp only at h
    split at h
    · cases h
    · split at h <;> cases h
      rename_i hempty
      rw [List.isEmpty_iff] at hempty
      simp only [hempty, List.length_nil]
      exact ⟨by decide, trivial⟩
  refine loop_returns (m := file.content.bytes.length + 2)
    (B := fun m (s : BlockStream codec) => (file.unread s.file).length +
      (if s.availOut ≠ 0 ∨ s.pickBytes = 0 then 1 else 2) ≤ m) ?_ ?_ hfuel
  · intro m s hm
    unfold body
    split
    · rename_i hrefill
      rw [if_pos hrefill] at hm
      split
      · exact ⟨_, rfl, by simp⟩
      · rename_i got f hread
        obtain ⟨hunread, -⟩ := FileReader.read_ok_unread hread (by decide)
        split
        · exact ⟨_, rfl, by simp⟩
        · rename_i hempty
          rw [List.isEmpty_iff] at hempty
          have hpos := List.length_pos_iff.mpr hempty
          refine ⟨_, rfl, ?_⟩
          intro s' h
          obtain ⟨havail, hfile⟩ := hstep _ _ h
          refine ⟨(file.unread f).length + 1, ?_, ?_⟩
          · rw [hunread, List.length_append] at hm
            omega
          · rw [if_pos (.inl havail), hfile]
    · rename_i hkeep
      rw [if_neg hkeep] at hm
      refine ⟨_, rfl, ?_⟩
      intro s' h
      obtain ⟨havail, hfile⟩ := hstep _ _ h
      refine ⟨(file.unread s.file).length + 1, by omega, ?_⟩
      rw [if_pos (.inl havail), hfile]
  · have hle : (file.unread s.file).length ≤ file.content.bytes.length := by
      rw [SourceFile.unread, List.length_drop]
      omega
    split <;> omega

end BlockStream

theorem gzipFatal_eq {zError : Int → WString} {ret : Int} {ec : ErrorCode}
    (h : gzipFatal zError ret = some ec) : ∃ m, ec = extractGeneral m := by
  unfold gzipFatal at h
  split at h
  · cases h
    exact ⟨_, rfl⟩
  · split at h <;> cases h
    exact ⟨_, rfl⟩

theorem bzipFatal_eq {ret : Int} {ec : ErrorCode}
    (h : bzipFatal ret = some ec) : ∃ m, ec = extractGeneral m := by
  unfold bzipFatal at h
  split at h <;> cases h
  exact ⟨_, rfl⟩

section Gzip

variable {file : SourceFile} {zError : Int → WString} {codec : StreamCodec}
  {fuel : Nat} {f₀ : FileState} {D : Bytes} {fate : Fate}

/-- What zlib is expected to do with the file. -/
abbrev GzipDecoding (file : SourceFile) (zError : Int → WString)
    (codec : StreamCodec) (f₀ : FileState) (D : Bytes) (fate : Fate) :=
  BlockDecoding codec (fun ret => gzipFatal zError ret ≠ none) 1
    (file.unread f₀) D fate

def GzipDecoding.delivers
    (decoding : GzipDecoding file zError codec f₀ D fate)
    (hfuel : file.content.bytes.length + 2 < fuel) :
    Delivers (gzipDecompressor file zError codec fuel) D where
  Ahead := BlockStream.Stands decoding
  Spent _ := False
  ok hs h := by
    obtain ⟨hne, hbegins, hs'⟩ :=
      BlockStream.loop_body_spec (fun _ _ => gzipFatal_eq) hs h
    exact ⟨hbegins, hs', fun hnil => absurd hnil hne⟩
  returns _ := BlockStream.loop_body_returns codec file _ _ hfuel
  spent h := h.elim

theorem GzipDecoding.stops (decoding : GzipDecoding file zError codec f₀ D fate)
    {s s' : BlockStream codec} {rest : Bytes} {e : Failure}
    (hs : BlockStream.Stands decoding s rest)
    (h : (gzipDecompressor file zError codec fuel).decompress s =
      some (.error e, s')) :
    Stops file fate rest e ∧
      (fate ≠ .corrupt → BlockStream.Stands decoding s' rest) :=
  BlockStream.loop_body_spec (fun _ _ => gzipFatal_eq) hs h

end Gzip

section Bzip

variable {file : SourceFile} {codec : StreamCodec} {fuel : Nat}
  {f₀ : FileState} {D : Bytes} {fate : Fate}

/-- What libbz2 is expected to do with the file. -/
abbrev BzipDecoding (file : SourceFile) (codec : StreamCodec)
    (f₀ : FileState) (D : Bytes) (fate : Fate) :=
  BlockDecoding codec (fun ret => bzipFatal ret ≠ none) bzStreamEnd
    (file.unread f₀) D fate

def BzipDecoding.delivers (decoding : BzipDecoding file codec f₀ D fate)
    (hfuel : file.content.bytes.length + 2 < fuel) :
    Delivers (bzipDecompressor file codec fuel) D where
  Ahead := BlockStream.Stands decoding
  Spent _ := False
  ok hs h := by
    unfold bzipDecompressor at h
    dsimp only at h
    split at h
    · cases h
    · obtain ⟨hne, hbegins, hs'⟩ :=
        BlockStream.loop_body_spec (fun _ _ => bzipFatal_eq) hs h
      exact ⟨hbegins, hs', fun hnil => absurd hnil hne⟩
  returns {s _} _ := by
    unfold bzipDecompressor
    dsimp only
    split
    · exact ⟨_, rfl⟩
    · exact BlockStream.loop_body_returns codec file _ s hfuel
  spent h := h.elim

theorem BzipDecoding.stops (decoding : BzipDecoding file codec f₀ D fate)
    {s s' : BlockStream codec} {rest : Bytes} {e : Failure}
    (hs : BlockStream.Stands decoding s rest)
    (h : (bzipDecompressor file codec fuel).decompress s =
      some (.error e, s')) :
    Stops file fate rest e ∧
      (fate ≠ .corrupt → BlockStream.Stands decoding s' rest) := by
  unfold bzipDecompressor at h
  dsimp only at h
  split at h
  · rename_i hend
    cases h
    obtain ⟨hrest, hfate⟩ := hs.2 hend
    exact ⟨.ended hfate hrest, fun _ => hs⟩
  · exact BlockStream.loop_body_spec (fun _ _ => bzipFatal_eq) hs h

end Bzip

/-! ## zstd -/

/-- Calls of libzstd have input and room for output: it counts the others and
fails after a few of them. -/
def FrameCall (a : Int) (given _ : Bytes) (n : Nat) : Prop :=
  a = 0 ∧ given ≠ [] ∧ 0 < n

/-- zstd goes on from one frame to the next, and each call makes progress. -/
structure FrameDecoding (c : Zip.ZstdCodec) (input D : Bytes) (fate : Fate)
    extends Decoding c.codec FrameCall (fun ret => c.isError ret = true) input
      D where
  progress : ∀ {s unread rest given n}, Ahead s unread rest →
    given <+: unread → given ≠ [] → 0 < n →
    c.isError (c.codec.run s 0 given n).ret = false →
    (c.codec.run s 0 given n).consumed ≠ 0 ∨
      (c.codec.run s 0 given n).output ≠ []
  broken : ∀ {s unread rest given n}, Ahead s unread rest →
    given <+: unread → given ≠ [] → 0 < n →
    c.isError (c.codec.run s 0 given n).ret = true → fate = .corrupt
  /-- An error is found at some byte of the input. -/
  exhausted : ∀ {s rest}, Ahead s [] rest → fate ≠ .corrupt

/-- When the input is used up, the decoder has no output left. -/
def FrameDecoding.Prompt {c : Zip.ZstdCodec} {input D : Bytes} {fate : Fate}
    (decoding : FrameDecoding c input D fate) : Prop :=
  ∀ s rest, decoding.Ahead s [] rest → rest = []

section Zstd

variable {file : SourceFile} {c : Zip.ZstdCodec} {fuel : Nat}
  {f₀ : FileState} {D : Bytes} {fate : Fate}

/-- What zstd is expected to do with the file. -/
abbrev ZstdDecoding (file : SourceFile) (c : Zip.ZstdCodec) (f₀ : FileState)
    (D : Bytes) (fate : Fate) :=
  FrameDecoding c (file.unread f₀) D fate

namespace ZstdStream

variable {decoding : ZstdDecoding file c f₀ D fate} {s : ZstdStream c.codec}
  {rest : Bytes}

def left (file : SourceFile) (s : ZstdStream c.codec) : Nat :=
  (s.input ++ file.unread s.file).length

/-- The stream is behind the output that was delivered. -/
def Stands (decoding : ZstdDecoding file c f₀ D fate)
    (s : ZstdStream c.codec) (rest : Bytes) : Prop :=
  decoding.Ahead s.codec (s.input ++ file.unread s.file) rest ∧
    left file s ≤ file.content.bytes.length

theorem stands_start :
    Stands decoding { file := f₀, codec := c.codec.init } D := by
  refine ⟨decoding.start, ?_⟩
  unfold left
  rw [List.nil_append, SourceFile.unread, List.length_drop]
  omega

/-- Without an error code, `decompress` fails only when the input is used
up. -/
def StepSpec (decoding : ZstdDecoding file c f₀ D fate) (rest : Bytes)
    (n : Nat) :
    Step (ZstdStream c.codec) (Except Failure Bytes × ZstdStream c.codec) →
      Prop :=
  Step.Sat
    (fun s => Stands decoding s rest ∧ left file s < n)
    (fun r => match r with
      | (.ok out, s) => out ≠ [] ∧ out <+: rest ∧
          Stands decoding s (rest.drop out.length)
      | (.error e, s) =>
          (Stops file fate rest e ∨ e = none ∧ fate ≠ .corrupt ∧
            ∃ s, decoding.Ahead s [] rest) ∧
          (fate ≠ .corrupt → Stands decoding s rest))

theorem step_spec (hs : Stands decoding s rest) (hinput : s.input ≠ []) :
    StepSpec decoding rest (left file s) (step c s) := by
  have hroom : 0 < Zip.zstdOutSize := by decide
  have hgiven : s.input <+: s.input ++ file.unread s.file :=
    List.prefix_append _ _
  obtain ⟨hahead, hle⟩ := hs
  generalize hr : c.codec.run s.codec 0 s.input Zip.zstdOutSize = r
  have hconsumed := r.consumed_le
  unfold step
  rw [hr]
  dsimp only
  split
  · rename_i herror
    have hcorrupt := decoding.broken hahead hgiven hinput hroom
      (by rw [hr]; exact herror)
    refine ⟨.inl (.broken (.inl (by rw [hcorrupt]; simp))), fun hne => ?_⟩
    exact absurd hcorrupt hne
  · rename_i hgood
    obtain ⟨hbegins, hahead'⟩ := decoding.run hahead hgiven
      ⟨rfl, hinput, hroom⟩ (by rw [hr]; exact hgood)
    have hprogress := decoding.progress hahead hgiven hinput hroom
      (by rw [hr]; simpa using hgood)
    rw [hr] at hbegins hahead' hprogress
    rw [List.drop_append_of_le_length hconsumed] at hahead'
    have hleft : left file { s with
        codec := r.state, input := s.input.drop r.consumed } + r.consumed =
        left file s := by
      unfold left
      rw [List.length_append, List.length_append, List.length_drop]
      dsimp only
      omega
    split
    · rename_i hempty
      rw [List.isEmpty_iff] at hempty
      rw [hempty, List.length_nil, List.drop_zero] at hahead'
      have hpos := hprogress.resolve_right (not_not.mpr hempty)
      exact ⟨⟨hahead', by omega⟩, by omega⟩
    · rename_i hempty
      rw [List.isEmpty_iff] at hempty
      exact ⟨hempty, hbegins, hahead', by omega⟩

theorem body_spec (hs : Stands decoding s rest)
    {next : Step (ZstdStream c.codec)
      (Except Failure Bytes × ZstdStream c.codec)}
    (hbody : body c file s = some next) :
    StepSpec decoding rest (left file s) next := by
  unfold body at hbody
  split at hbody
  · rename_i hempty
    rw [List.isEmpty_iff] at hempty
    split at hbody
    · rename_i e f hread
      cases hbody
      obtain ⟨hunread, n, err, hfault, rfl⟩ :=
        FileReader.read_error_unread hread
      refine ⟨.inl (.system hfault), fun _ => ?_⟩
      unfold Stands left at hs ⊢
      rw [hunread]
      exact hs
    · rename_i got f hread
      obtain ⟨hunread, hend⟩ := FileReader.read_ok_unread hread (by decide)
      -- The new block only moves from the file into the buffer.
      have hmoved : Stands decoding { s with file := f, input := got } rest ∧
          left file { s with file := f, input := got } = left file s := by
        unfold Stands left at hs ⊢
        rw [hempty, List.nil_append, hunread] at hs
        refine ⟨hs, ?_⟩
        rw [hempty, List.nil_append, hunread]
      split at hbody <;> cases hbody
      · rename_i hnone
        rw [List.isEmpty_iff] at hnone
        rw [hnone, ← hempty] at hmoved
        refine ⟨.inr ⟨rfl, ?_⟩, fun _ => hmoved.1⟩
        obtain ⟨hahead, -⟩ := hs
        rw [hempty, hend hnone] at hahead
        exact ⟨decoding.exhausted hahead, _, hahead⟩
      · rename_i hsome
        rw [List.isEmpty_iff] at hsome
        rw [← hmoved.2]
        exact step_spec hmoved.1 hsome
  · rename_i hsome
    rw [List.isEmpty_iff] at hsome
    cases hbody
    exact step_spec hs hsome

theorem loop_body_spec (hs : Stands decoding s rest) {fuel : Nat}
    {r : Except Failure Bytes × ZstdStream c.codec}
    (hloop : loop (body c file) fuel s = some r) :
    StepSpec decoding rest 0 (.done r) := by
  refine loop_spec (I := fun s => Stands decoding s rest)
    (Q := fun r => StepSpec decoding rest 0 (.done r)) ?_ hs hloop
  intro s next hs hbody
  have hspec := body_spec hs hbody
  cases next with
  | next s => exact hspec.1
  | done r => exact hspec

theorem loop_body_returns (hs : Stands decoding s rest) {fuel : Nat}
    (hfuel : file.content.bytes.length < fuel) :
    ∃ r, loop (body c file) fuel s = some r := by
  refine loop_returns (B := fun m (s : ZstdStream c.codec) =>
    Stands decoding s rest ∧ left file s ≤ m) ?_ ⟨hs, hs.2⟩ hfuel
  rintro m s ⟨hs, hm⟩
  have hreturns : ∃ next, body c file s = some next := by
    unfold body
    split
    · split
      · exact ⟨_, rfl⟩
      · split <;> exact ⟨_, rfl⟩
    · exact ⟨_, rfl⟩
  obtain ⟨next, hbody⟩ := hreturns
  refine ⟨next, hbody, ?_⟩
  rintro s' rfl
  obtain ⟨hs', hlt⟩ := body_spec hs hbody
  exact ⟨left file s', by omega, hs', le_refl _⟩

end ZstdStream

def FrameDecoding.delivers (decoding : ZstdDecoding file c f₀ D fate)
    (hfuel : file.content.bytes.length < fuel) :
    Delivers (zstdDecompressor file c fuel) D where
  Ahead := ZstdStream.Stands decoding
  Spent _ := False
  ok hs h := by
    obtain ⟨hne, hbegins, hs'⟩ := ZstdStream.loop_body_spec hs h
    exact ⟨hbegins, hs', fun hnil => absurd hnil hne⟩
  returns hs := ZstdStream.loop_body_returns hs hfuel
  spent h := h.elim

theorem FrameDecoding.stops (decoding : ZstdDecoding file c f₀ D fate)
    (hprompt : decoding.Prompt) {s s' : ZstdStream c.codec} {rest : Bytes}
    {e : Failure} (hs : ZstdStream.Stands decoding s rest)
    (h : (zstdDecompressor file c fuel).decompress s =
      some (.error e, s')) :
    Stops file fate rest e ∧
      (fate ≠ .corrupt → ZstdStream.Stands decoding s' rest) := by
  obtain ⟨hstops, hs'⟩ := ZstdStream.loop_body_spec hs h
  refine ⟨?_, hs'⟩
  rcases hstops with hstops | ⟨rfl, hfate, s₁, hahead⟩
  · exact hstops
  · exact .silent hfate (hprompt s₁ rest hahead)

end Zstd

end Baulk.Tar
