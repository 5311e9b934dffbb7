import Baulk.Tar.Decoding

/-!
# The decoder for xz

`lzma_code` is told when the input is complete and then reports the end of the
last stream, or an error.  The reader collects its output until the buffer is
full, so that output may be pending when the decoder fails.
-/

namespace Baulk.Tar

open Support (Step loop loop_spec loop_returns)
open Zip (StreamCodec)

/-- liblzma's statuses other than `LZMA_OK` and `LZMA_STREAM_END`. -/
def lzmaFatal (ret : Int) : Prop :=
  ret ≠ 0 ∧ ret ≠ lzmaStreamEnd

/-- Calls of liblzma have room for output; it is told to finish when, and only
when, all of the input is used up. -/
def LzmaCall (a : Int) (given unread : Bytes) (n : Nat) : Prop :=
  0 < n ∧ (a = Zip.lzmaRun ∧ given ≠ [] ∨
    a = Zip.lzmaFinish ∧ given = [] ∧ unread = [])

/-- `LZMA_OK` means that the input or the room for output is used up; it is not
returned twice in a row without any progress.  The output of a call that fails
counts as well. -/
structure LzmaDecoding (codec : StreamCodec) (input D : Bytes) (fate : Fate)
    extends Decoding codec LzmaCall (fun _ => False) input D where
  /-- Nothing was consumed so far. -/
  Fresh : codec.State → Prop
  /-- The last call has made no progress. -/
  Stalled : codec.State → Prop
  fresh_init : Fresh codec.init
  fresh_run : ∀ {s a given unread n}, Fresh s → LzmaCall a given unread n →
    (codec.run s a given n).consumed = 0 →
    (codec.run s a given n).output = [] ∧
      Fresh (codec.run s a given n).state
  stalls : ∀ {s a given unread n}, LzmaCall a given unread n →
    (codec.run s a given n).consumed = 0 →
    (codec.run s a given n).output = [] →
    Stalled (codec.run s a given n).state
  stalled : ∀ {s a given unread n}, Stalled s → LzmaCall a given unread n →
    (codec.run s a given n).consumed = 0 →
    (codec.run s a given n).output = [] →
    (codec.run s a given n).ret ≠ 0
  eager : ∀ {s unread rest a given n}, Ahead s unread rest →
    given <+: unread → LzmaCall a given unread n →
    (codec.run s a given n).ret = 0 →
    (codec.run s a given n).output.length = n ∨
      (codec.run s a given n).consumed = given.length
  ended : ∀ {s unread rest a given n}, Ahead s unread rest →
    given <+: unread → LzmaCall a given unread n →
    (codec.run s a given n).ret = lzmaStreamEnd →
    rest.drop (codec.run s a given n).output.length = [] ∧
      fate = .complete
  broken : ∀ {s unread rest a given n}, Ahead s unread rest →
    given <+: unread → LzmaCall a given unread n →
    lzmaFatal (codec.run s a given n).ret → fate ≠ .complete

/-- What liblzma is expected to do with the file. -/
abbrev XzDecoding (file : SourceFile) (codec : StreamCodec) (f₀ : FileState)
    (D : Bytes) (fate : Fate) :=
  LzmaDecoding codec (file.unread f₀) D fate

variable {file : SourceFile} {codec : StreamCodec} {fuel : Nat}
  {f₀ : FileState} {D : Bytes} {fate : Fate}

namespace XzStream

variable {decoding : XzDecoding file codec f₀ D fate} {s : XzStream codec}
  {rest : Bytes}

/-- What is left to be consumed and to be put into the buffer. -/
def left (file : SourceFile) (s : XzStream codec) : Nat :=
  (s.input ++ file.unread s.file).length + (xzoutsize - s.pending.length)

/-- The codec is in the middle of the stream. -/
structure Running (decoding : XzDecoding file codec f₀ D fate)
    (s : XzStream codec) (rest : Bytes) : Prop where
  ahead : ∃ r, rest = s.pending ++ r ∧
    decoding.Ahead s.codec (s.input ++ file.unread s.file) r
  room : s.pending.length < xzoutsize
  fresh : s.totalIn = 0 → decoding.Fresh s.codec
  input_le : (s.input ++ file.unread s.file).length ≤
    file.content.bytes.length

/-- The stream is behind the output that was delivered. -/
def Stands (decoding : XzDecoding file codec f₀ D fate) (s : XzStream codec)
    (rest : Bytes) : Prop :=
  s.ret = lzmaStreamEnd ∧ rest = [] ∧ fate = .complete ∨
    s.ret ≠ lzmaStreamEnd ∧ Running decoding s rest ∧
      (s.totalIn = 0 → s.input = [])

theorem stands_start :
    Stands decoding { file := f₀, codec := codec.init } D := by
  have hend : (0 : Int) ≠ lzmaStreamEnd := by decide
  have hroom : 0 < xzoutsize := by decide
  refine .inr ⟨hend, ⟨⟨D, rfl, decoding.start⟩, hroom,
    fun _ => decoding.fresh_init, ?_⟩, fun _ => rfl⟩
  rw [List.nil_append, SourceFile.unread, List.length_drop]
  omega

/-- The state goes on with less to do, or once without. -/
def Less (decoding : XzDecoding file codec f₀ D fate) (s s' : XzStream codec) :
    Prop :=
  left file s' < left file s ∨ left file s' = left file s ∧
    decoding.Stalled s'.codec ∧ ¬decoding.Stalled s.codec

def StepSpec (decoding : XzDecoding file codec f₀ D fate) (s : XzStream codec)
    (rest : Bytes) :
    Step (XzStream codec) (Except Failure Bytes × XzStream codec) → Prop :=
  Step.Sat
    (fun s' => Stands decoding s' rest ∧ s'.ret ≠ lzmaStreamEnd ∧
      Less decoding s s')
    (fun r => match r with
      | (.ok out, s') => out <+: rest ∧
          Stands decoding s' (rest.drop out.length) ∧
          (out = [] → s'.ret = lzmaStreamEnd)
      | (.error e, s') => Stops file fate rest e ∧
          (fate = .complete → Stands decoding s' rest))

theorem lzmaCall {action : Int} (hroom : s.pending.length < xzoutsize)
    (hfinish : s.input = [] → file.unread s.file = [])
    (haction : (if s.input.isEmpty then Zip.lzmaFinish else Zip.lzmaRun) =
      action) :
    LzmaCall action s.input (s.input ++ file.unread s.file)
      (xzoutsize - s.pending.length) := by
  refine ⟨by omega, ?_⟩
  subst haction
  split
  · rename_i hempty
    rw [List.isEmpty_iff] at hempty
    exact .inr ⟨rfl, hempty, by rw [hempty, hfinish hempty]; rfl⟩
  · rename_i hempty
    rw [List.isEmpty_iff] at hempty
    exact .inl ⟨rfl, hempty⟩

theorem step_spec (hs : Running decoding s rest)
    (hfinish : s.input = [] → file.unread s.file = []) :
    StepSpec decoding s rest (step s) := by
  obtain ⟨⟨r₀, rfl, hahead⟩, hroom, hfresh, hle⟩ := hs
  have hgiven : s.input <+: s.input ++ file.unread s.file :=
    List.prefix_append _ _
  generalize haction : (if s.input.isEmpty then Zip.lzmaFinish
    else Zip.lzmaRun) = action
  have hcall := lzmaCall hroom hfinish haction
  generalize hr : codec.run s.codec action s.input
    (xzoutsize - s.pending.length) = r
  have hconsumed := r.consumed_le
  have houtput := r.output_le
  obtain ⟨hbegins, hahead'⟩ := decoding.run hahead hgiven hcall (by simp)
  have hfresh' : s.totalIn + r.consumed = 0 →
      r.output = [] ∧ decoding.Fresh r.state := by
    intro hzero
    have hnone := decoding.fresh_run (hfresh (by omega)) hcall
    rw [hr] at hnone
    exact hnone (by omega)
  rw [hr] at hbegins hahead'
  rw [List.drop_append_of_le_length hconsumed] at hahead'
  have hrest : r₀ = r.output ++ r₀.drop r.output.length := by
    obtain ⟨tail, rfl⟩ := hbegins
    rw [List.drop_left]
  have hinput : (s.input.drop r.consumed ++ file.unread s.file).length +
      r.consumed = (s.input ++ file.unread s.file).length := by
    rw [List.length_append, List.length_append, List.length_drop]
    omega
  have hlength : (s.pending ++ r.output).length =
      s.pending.length + r.output.length := List.length_append
  unfold step
  rw [haction, hr]
  dsimp only
  split
  · -- The buffer is handed over.
    rename_i hfull
    refine ⟨?_, ?_, ?_⟩
    · rw [List.prefix_append_right_inj]
      exact hbegins
    · have hdrop : (s.pending ++ r₀).drop (s.pending ++ r.output).length =
          r₀.drop r.output.length := by
        rw [hlength, ← List.drop_drop, List.drop_left]
      rw [hdrop]
      by_cases hend : r.ret = lzmaStreamEnd
      · obtain ⟨hnil, hfate⟩ := decoding.ended hahead hgiven hcall
          (by rw [hr, hend])
        rw [hr] at hnil
        exact .inl ⟨hend, hnil, hfate⟩
      · have hfull' := hfull.resolve_right hend
        have hmoved : s.totalIn + r.consumed ≠ 0 := by
          intro hzero
          rw [hlength, (hfresh' hzero).1, List.length_nil] at hfull'
          omega
        refine .inr ⟨hend, ⟨⟨_, rfl, hahead'⟩, ?_, ?_, ?_⟩, ?_⟩
        · rw [List.length_nil]
          omega
        · exact fun hzero => absurd hzero hmoved
        · show (s.input.drop r.consumed ++ file.unread s.file).length ≤ _
          omega
        · exact fun hzero => absurd hzero hmoved
    · intro hnil
      refine hfull.resolve_left fun hfull' => ?_
      rw [hnil, List.length_nil] at hfull'
      exact absurd hfull' (by decide)
  · rename_i hkeep
    rw [not_or] at hkeep
    obtain ⟨hnot, hend⟩ := hkeep
    have hrunning : Running decoding { s with
        codec := r.state
        input := s.input.drop r.consumed
        totalIn := s.totalIn + r.consumed
        pending := s.pending ++ r.output
        ret := r.ret } (s.pending ++ r₀) := by
      refine ⟨⟨_, ?_, hahead'⟩, ?_, fun hzero => (hfresh' hzero).2, ?_⟩
      · rw [List.append_assoc, ← hrest]
      · show (s.pending ++ r.output).length < xzoutsize
        omega
      · show (s.input.drop r.consumed ++ file.unread s.file).length ≤ _
        omega
    split
    · rename_i hfatal
      have hfate := decoding.broken hahead hgiven hcall
        (by rw [hr]; exact ⟨hfatal, hend⟩)
      exact ⟨.broken (.inl hfate), fun h => absurd h hfate⟩
    · rename_i hok
      rw [not_not] at hok
      have heager := decoding.eager hahead hgiven hcall
        (by rw [hr]; exact hok)
      rw [hr] at heager
      have hall : r.consumed = s.input.length :=
        heager.resolve_left (by omega)
      refine ⟨.inr ⟨hend, hrunning, fun _ => ?_⟩, hend, ?_⟩
      · show s.input.drop r.consumed = []
        rw [hall, List.drop_length]
      · unfold Less left
        dsimp only
        by_cases hprogress : r.consumed = 0 ∧ r.output = []
        · right
          refine ⟨?_, ?_, ?_⟩
          · rw [hprogress.2, List.append_nil]
            omega
          · have hstalls := decoding.stalls (s := s.codec) hcall
            rw [hr] at hstalls
            exact hstalls hprogress.1 hprogress.2
          · intro hstalled
            have hfails := decoding.stalled hstalled hcall
            rw [hr] at hfails
            exact hfails hprogress.1 hprogress.2 hok
        · left
          rw [not_and_or] at hprogress
          rcases hprogress with hconsumes | houtputs
          · omega
          · have hpos := List.length_pos_iff.mpr houtputs
            omega

theorem body_spec (hs : Stands decoding s rest)
    (hrunning : s.ret ≠ lzmaStreamEnd)
    {next : Step (XzStream codec) (Except Failure Bytes × XzStream codec)}
    (hbody : body file s = some next) : StepSpec decoding s rest next := by
  rcases hs with ⟨hend, -⟩ | ⟨-, hs, hnone⟩
  · exact absurd hend hrunning
  unfold body at hbody
  split at hbody
  · rename_i hrefill
    have hempty : s.input = [] :=
      hrefill.elim List.isEmpty_iff.mp hnone
    split at hbody
    · rename_i e f hread
      cases hbody
      obtain ⟨hunread, n, err, hfault, rfl⟩ :=
        FileReader.read_error_unread hread
      refine ⟨.system hfault, fun _ => .inr ⟨hrunning, ?_, hnone⟩⟩
      obtain ⟨hahead, hroom, hfresh, hle⟩ := hs
      rw [← hunread] at hahead hle
      exact ⟨hahead, hroom, hfresh, hle⟩
    · rename_i got f hread
      cases hbody
      obtain ⟨hunread, hend⟩ := FileReader.read_ok_unread hread (by decide)
      obtain ⟨hahead, hroom, hfresh, hle⟩ := hs
      rw [hempty, List.nil_append, hunread] at hahead hle
      -- The new block only moves from the file into the buffer.
      have hless : ∀ s', Less decoding { s with file := f, input := got } s' →
          Less decoding s s' := by
        intro s' h
        unfold Less left at h ⊢
        dsimp only at h
        rw [hempty, List.nil_append, hunread]
        exact h
      have hspec := step_spec (s := { s with file := f, input := got })
        ⟨hahead, hroom, hfresh, hle⟩ (fun hnil => ?_)
      · cases hnext : step { s with file := f, input := got } with
        | done r =>
            rw [hnext] at hspec
            exact hspec
        | next s' =>
            rw [hnext] at hspec
            exact ⟨hspec.1, hspec.2.1, hless s' hspec.2.2⟩
      · have hall := hend hnil
        rw [hunread, List.append_eq_nil_iff] at hall
        exact hall.2
  · rename_i hkeep
    rw [not_or, List.isEmpty_iff] at hkeep
    cases hbody
    exact step_spec hs fun hnil => absurd hnil hkeep.1

theorem loop_body_spec (hs : Stands decoding s rest)
    (hrunning : s.ret ≠ lzmaStreamEnd) {fuel : Nat}
    {r : Except Failure Bytes × XzStream codec}
    (hloop : loop (body file) fuel s = some r) :
    StepSpec decoding s rest (.done r) := by
  refine loop_spec
    (I := fun s => Stands decoding s rest ∧ s.ret ≠ lzmaStreamEnd)
    (Q := fun r => StepSpec decoding s rest (.done r)) ?_ ⟨hs, hrunning⟩ hloop
  rintro s next ⟨hs, hrunning⟩ hbody
  have hspec := body_spec hs hrunning hbody
  cases next with
  | next s => exact ⟨hspec.1, hspec.2.1⟩
  | done r => exact hspec

theorem loop_body_returns (hs : Stands decoding s rest)
    (hrunning : s.ret ≠ lzmaStreamEnd) {fuel : Nat}
    (hfuel : 2 * (file.content.bytes.length + xzoutsize) + 1 < fuel) :
    ∃ r, loop (body file) fuel s = some r := by
  classical
  refine loop_returns (B := fun m (s : XzStream codec) =>
    (Stands decoding s rest ∧ s.ret ≠ lzmaStreamEnd) ∧
      2 * left file s + (if decoding.Stalled s.codec then 0 else 1) ≤ m) ?_
    ⟨⟨hs, hrunning⟩, ?_⟩ hfuel
  · rintro m s ⟨⟨hs, hrunning⟩, hm⟩
    have hreturns : ∃ next, body file s = some next := by
      unfold body
      split
      · split <;> exact ⟨_, rfl⟩
      · exact ⟨_, rfl⟩
    obtain ⟨next, hbody⟩ := hreturns
    refine ⟨next, hbody, ?_⟩
    rintro s' rfl
    obtain ⟨hs', hrunning', hless⟩ := body_spec hs hrunning hbody
    refine ⟨_, ?_, ⟨hs', hrunning'⟩, le_refl _⟩
    rcases hless with hless | ⟨heq, hstalled, hnot⟩
    · split <;> omega
    · rw [if_pos hstalled, heq]
      rw [if_neg hnot] at hm
      omega
  · rcases hs with ⟨hend, -⟩ | ⟨-, ⟨-, -, -, hle⟩, -⟩
    · exact absurd hend hrunning
    · unfold left
      split <;> omega

end XzStream

def LzmaDecoding.delivers (decoding : XzDecoding file codec f₀ D fate)
    (hfuel : 2 * (file.content.bytes.length + xzoutsize) + 1 < fuel) :
    Delivers (xzDecompressor file codec fuel) D where
  Ahead := XzStream.Stands decoding
  Spent s := s.ret = lzmaStreamEnd
  ok hs h := by
    unfold xzDecompressor at h
    dsimp only at h
    split at h
    · cases h
    · rename_i hrunning
      exact XzStream.loop_body_spec hs hrunning h
  returns {s _} hs := by
    unfold xzDecompressor
    dsimp only
    split
    · exact ⟨_, rfl⟩
    · rename_i hrunning
      exact XzStream.loop_body_returns hs hrunning hfuel
  spent {s _ _} hspent h := by
    unfold xzDecompressor at h
    dsimp only at h
    rw [if_pos hspent] at h
    cases h

theorem LzmaDecoding.stops (decoding : XzDecoding file codec f₀ D fate)
    {s s' : XzStream codec} {rest : Bytes} {e : Failure}
    (hs : XzStream.Stands decoding s rest)
    (h : (xzDecompressor file codec fuel).decompress s =
      some (.error e, s')) :
    Stops file fate rest e ∧
      (fate = .complete → XzStream.Stands decoding s' rest) := by
  unfold xzDecompressor at h
  dsimp only at h
  split at h
  · rename_i hend
    cases h
    rcases id hs with ⟨-, hrest, -⟩ | ⟨hnot, -⟩
    · exact ⟨.broken (.inr hrest), fun _ => hs⟩
    · exact absurd hend hnot
  · rename_i hrunning
    exact XzStream.loop_body_spec hs hrunning h

end Baulk.Tar
