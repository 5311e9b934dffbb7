import Baulk.Tar.View

/-!
# Streams of several members

A compressed file may consist of several complete members one after the other:
gzip members, bzip2 or xz streams, zstd frames.  The decoder for xz was told to
go on from one stream to the next, and that for zstd does so by itself; the
other two stop at the end of the first member, and the readers around them drop
the rest.
-/

namespace Baulk.Tar

open Zip (StreamCodec)

/-! ## Reading to the end -/

/-- Everything that is read, up to the first call that yields nothing. -/
inductive ReadsAll (R : ExtractReader) : R.State → Bytes → Prop
  | stop {s s' : R.State} {n : Nat} {outcome : Except Failure Bytes} :
      0 < n → R.read n s = some (outcome, s') →
      (∀ got, outcome = .ok got → got = []) → ReadsAll R s []
  | more {s s' : R.State} {n : Nat} {got rest : Bytes} :
      0 < n → R.read n s = some (.ok got, s') → got ≠ [] →
      ReadsAll R s' rest → ReadsAll R s (got ++ rest)

/-- Whatever the sizes of the reads, exactly `data` is delivered. -/
def DeliversAll (R : ExtractReader) (s : R.State) (data : Bytes) : Prop :=
  (∃ got, ReadsAll R s got) ∧ ∀ got, ReadsAll R s got → got = data

theorem DeliversAll.unique {R : ExtractReader} {s : R.State}
    {data data' : Bytes} (h : DeliversAll R s data)
    (h' : DeliversAll R s data') : data = data' := by
  obtain ⟨got, hgot⟩ := h.1
  rw [← h.2 got hgot, ← h'.2 got hgot]

section Supply

variable {dec : Decompressor} {file : SourceFile} {init : dec.State}
  {D : Bytes} {fuel : Nat} (supply : Supply file dec init D .complete)

include supply

theorem Supply.readsAll_eq (hfault : ∀ n, file.fault n = none)
    (hfuel : 2 * D.length + 1 < fuel) {b : (dec.reader fuel).State}
    {data : Bytes} (h : ReadsAll (dec.reader fuel) b data) :
    ∀ {p : Nat}, supply.delivers.At b p → data = D.drop p := by
  induction h with
  | @stop b b' n outcome hn hread hnone =>
      intro p hat
      have hle := Delivers.At.le hat
      rcases Nat.lt_or_ge p D.length with hp | hp
      · obtain ⟨got, b₁, hread', hne, -⟩ :=
          (supply.answers hfault hfuel).read hat hp trivial hn
        rw [hread] at hread'
        cases hread'
        exact absurd (hnone got rfl) hne
      · rw [List.drop_of_length_le hp]
  | @more b b' n got rest hn hread hne _ ih =>
      intro p hat
      obtain ⟨-, hgot, hat'⟩ := Delivers.At.read_ok hat hread
      have htake : (D.drop p).take got.length = got := hgot.symm
      rw [ih hat', ← List.drop_drop]
      conv_rhs => rw [← List.take_append_drop got.length (D.drop p), htake]

theorem Supply.exists_readsAll (hfault : ∀ n, file.fault n = none)
    (hfuel : 2 * D.length + 1 < fuel) (left : Nat) :
    ∀ {b : (dec.reader fuel).State} {p : Nat}, supply.delivers.At b p →
      D.length - p ≤ left → ∃ data, ReadsAll (dec.reader fuel) b data := by
  induction left with
  | zero =>
      intro b p hat hleft
      obtain ⟨⟨outcome, b'⟩, hread⟩ := Delivers.At.read_returns hat 1
      refine ⟨[], .stop Nat.one_pos hread ?_⟩
      rintro got rfl
      obtain ⟨-, hgot, -⟩ := Delivers.At.read_ok hat hread
      have hlength := length_segment D p got.length
      rw [← hgot] at hlength
      exact List.length_eq_zero_iff.mp (by omega)
  | succ left ih =>
      intro b p hat hleft
      rcases Nat.lt_or_ge p D.length with hp | hp
      · obtain ⟨got, b₁, hread, hne, -, -, hat'⟩ :=
          (supply.answers hfault hfuel).read hat hp trivial Nat.one_pos
        have hpos := List.length_pos_iff.mpr hne
        obtain ⟨rest, hrest⟩ := ih hat' (by omega)
        exact ⟨got ++ rest, .more Nat.one_pos hread hne hrest⟩
      · exact ih hat (by omega)

theorem Supply.deliversAll (hfault : ∀ n, file.fault n = none)
    (hfuel : 2 * D.length + 1 < fuel) :
    DeliversAll (dec.reader fuel) (⟨[], init⟩ : Buffered dec) D := by
  have hstart : supply.delivers.At ⟨[], init⟩ 0 :=
    ⟨D, supply.start, List.suffix_refl D, by simp⟩
  refine ⟨supply.exists_readsAll hfault hfuel D.length hstart (by omega), ?_⟩
  intro got hgot
  exact supply.readsAll_eq hfault hfuel hgot hstart

end Supply

/-! ## Members -/

/-- Compressed members with what they decode to. -/
abbrev Members := List (Bytes × Bytes)

namespace Members

def bytes (members : Members) : Bytes :=
  (members.map Prod.fst).flatten

/-- The bytes that were compressed. -/
def data (members : Members) : Bytes :=
  (members.map Prod.snd).flatten

end Members

/-- A decoder for frames: it reports the end of each frame with the status 0,
leaves the input behind the frame alone and is then ready for the next one.
The calls are those with input and room for output. -/
structure FrameLaw (c : Zip.ZstdCodec) where
  Frame : Bytes → Bytes → Prop
  /-- Within a frame, with the bytes and the output that are left of it. -/
  Inside : c.codec.State → Bytes → Bytes → Prop
  Between : c.codec.State → Prop
  init : Between c.codec.init
  enter : ∀ {s m d}, Between s → Frame m d → Inside s m d
  run : ∀ {s m d tail given room}, Inside s m d → given <+: m ++ tail →
    given ≠ [] → 0 < room →
    c.isError (c.codec.run s 0 given room).ret = false ∧
      (c.codec.run s 0 given room).consumed ≤ m.length ∧
      (c.codec.run s 0 given room).output <+: d ∧
      (if (c.codec.run s 0 given room).ret = 0 then
        (c.codec.run s 0 given room).consumed = m.length ∧
          (c.codec.run s 0 given room).output = d ∧
          Between (c.codec.run s 0 given room).state
      else
        Inside (c.codec.run s 0 given room).state
          (m.drop (c.codec.run s 0 given room).consumed)
          (d.drop (c.codec.run s 0 given room).output.length))
  progress : ∀ {s m d tail given room}, Inside s m d →
    given <+: m ++ tail → given ≠ [] → 0 < room →
    (c.codec.run s 0 given room).consumed ≠ 0 ∨
      (c.codec.run s 0 given room).output ≠ []

namespace FrameLaw

variable {c : Zip.ZstdCodec} (law : FrameLaw c)

/-- When a frame is consumed, the decoder has no output left. -/
def Prompt : Prop :=
  ∀ s d, law.Inside s [] d → d = []

/-- The frames that are left, the first of which may be begun. -/
def Ahead (s : c.codec.State) (unread rest : Bytes) : Prop :=
  (∃ m d members, law.Inside s m d ∧
    (∀ x ∈ members, law.Frame x.1 x.2) ∧
    unread = m ++ Members.bytes members ∧
    rest = d ++ Members.data members) ∨
  law.Between s ∧ unread = [] ∧ rest = []

theorem ahead_of_between {s : c.codec.State} (hs : law.Between s)
    {members : Members} (hmembers : ∀ x ∈ members, law.Frame x.1 x.2) :
    law.Ahead s members.bytes members.data := by
  cases members with
  | nil => exact .inr ⟨hs, rfl, rfl⟩
  | cons x members =>
      refine .inl ⟨x.1, x.2, members,
        law.enter hs (hmembers x List.mem_cons_self), ?_, rfl, rfl⟩
      exact fun y hy => hmembers y (List.mem_cons_of_mem _ hy)

theorem ahead_run {s : c.codec.State} {unread rest given : Bytes} {room : Nat}
    (hs : law.Ahead s unread rest) (hgiven : given <+: unread)
    (hne : given ≠ []) (hroom : 0 < room) :
    (c.codec.run s 0 given room).output <+: rest ∧
      law.Ahead (c.codec.run s 0 given room).state
        (unread.drop (c.codec.run s 0 given room).consumed)
        (rest.drop (c.codec.run s 0 given room).output.length) := by
  rcases hs with ⟨m, d, members, hs, hmembers, rfl, rfl⟩ | ⟨hs, rfl, rfl⟩
  · obtain ⟨-, hconsumed, hbegins, hnext⟩ := law.run hs hgiven hne hroom
    refine ⟨hbegins.trans (List.prefix_append _ _), ?_⟩
    split at hnext
    · obtain ⟨hall, hout, hbetween⟩ := hnext
      rw [hall, hout, List.drop_left, List.drop_left]
      exact law.ahead_of_between hbetween hmembers
    · rw [List.drop_append_of_le_length hconsumed,
        List.drop_append_of_le_length hbegins.length_le]
      exact .inl ⟨_, _, members, hnext, hmembers, rfl, rfl⟩
  · exact absurd (List.prefix_nil.mp hgiven) hne

/-- Frames in a row are decoded one after the other. -/
def decoding {members : Members}
    (hmembers : ∀ x ∈ members, law.Frame x.1 x.2) :
    FrameDecoding c members.bytes members.data .complete where
  Ahead := law.Ahead
  start := law.ahead_of_between law.init hmembers
  run hs hgiven hcall _ := by
    obtain ⟨rfl, hne, hroom⟩ := hcall
    exact law.ahead_run hs hgiven hne hroom
  progress hs hgiven hne hroom _ := by
    rcases hs with ⟨m, d, members, hs, -, rfl, rfl⟩ | ⟨-, rfl, -⟩
    · exact law.progress hs hgiven hne hroom
    · exact absurd (List.prefix_nil.mp hgiven) hne
  broken hs hgiven hne hroom herror := by
    rcases hs with ⟨m, d, members, hs, -, rfl, rfl⟩ | ⟨-, rfl, -⟩
    · rw [(law.run hs hgiven hne hroom).1] at herror
      cases herror
    · exact absurd (List.prefix_nil.mp hgiven) hne
  exhausted _ := by decide

theorem prompt_decoding {members : Members}
    (hmembers : ∀ x ∈ members, law.Frame x.1 x.2)
    (hnonempty : ∀ m d, law.Frame m d → m ≠ []) (hprompt : law.Prompt) :
    (law.decoding hmembers).Prompt := by
  rintro s rest (⟨m, d, rest', hs, hrest, hunread, rfl⟩ | ⟨-, -, rfl⟩)
  · obtain ⟨rfl, hnone⟩ := List.append_eq_nil_iff.mp hunread.symm
    cases rest' with
    | nil =>
        rw [hprompt s d hs]
        rfl
    | cons x rest' =>
        have hx := hnonempty x.1 x.2 (hrest x List.mem_cons_self)
        rw [Members.bytes, List.map_cons, List.flatten_cons,
          List.append_eq_nil_iff] at hnone
        exact absurd hnone.1 hx
  · rfl

end FrameLaw

/-! ## The readers -/

/-- The members of a file are complete: zlib and libbz2 decode each of them,
whatever follows, and stop behind it; zstd decodes frames and holds nothing
back at their end; liblzma, told that streams are concatenated, decodes them
all. -/
def Compression.Complete (libs : Libraries) (members : Members) :
    Compression → Prop
  | .gz => ∀ x ∈ members, ∀ tail, Nonempty (BlockDecoding libs.zlib
      (fun ret => gzipFatal libs.zError ret ≠ none) 1 (x.1 ++ tail) x.2
      .complete)
  | .bz2 => ∀ x ∈ members, ∀ tail, Nonempty (BlockDecoding libs.bzlib
      (fun ret => bzipFatal ret ≠ none) bzStreamEnd (x.1 ++ tail) x.2
      .complete)
  | .zstd => ∃ law : FrameLaw libs.zstd, law.Prompt ∧
      (∀ m d, law.Frame m d → m ≠ []) ∧
      ∀ x ∈ members, law.Frame x.1 x.2
  | .xz => Nonempty (LzmaDecoding libs.lzma members.bytes members.data
      .complete)
  | .brotli => False

/-- What a reader makes of several members. -/
def Compression.delivered (first : Bytes × Bytes) (others : Members) :
    Compression → Bytes
  | .gz => first.2
  | .bz2 => first.2
  | _ => Members.data (first :: others)

variable {libs : Libraries} {file : SourceFile} {fuel : Nat} {f₀ : FileState}
  {k : Compression} {first : Bytes × Bytes} {others : Members}

theorem Compression.decodes_delivered
    (hcomplete : k.Complete libs (first :: others))
    (hfile : file.unread f₀ = Members.bytes (first :: others)) :
    k.DecodesPromptly libs file f₀ (k.delivered first others) .complete := by
  have hbytes : Members.bytes (first :: others) =
      first.1 ++ Members.bytes others := rfl
  cases k with
  | gz =>
      have hfirst := hcomplete first List.mem_cons_self (Members.bytes others)
      rw [← hbytes, ← hfile] at hfirst
      exact hfirst
  | bz2 =>
      have hfirst := hcomplete first List.mem_cons_self (Members.bytes others)
      rw [← hbytes, ← hfile] at hfirst
      exact hfirst
  | zstd =>
      obtain ⟨law, hprompt, hnonempty, hmembers⟩ := hcomplete
      unfold Compression.DecodesPromptly ZstdDecoding
      rw [hfile]
      exact ⟨law.decoding hmembers,
        law.prompt_decoding hmembers hnonempty hprompt⟩
  | xz =>
      show Nonempty (LzmaDecoding libs.lzma (file.unread f₀) _ .complete)
      rw [hfile]
      exact hcomplete
  | brotli => exact hcomplete.elim

/-- The readers for xz and zstd deliver all members; those for gzip and bzip2
deliver the first one only. -/
theorem compression_deliversAll
    (hcomplete : k.Complete libs (first :: others))
    (hfile : file.unread f₀ = Members.bytes (first :: others))
    (hfault : ∀ n, file.fault n = none)
    (hfuel : EnoughFuel file (Members.data (first :: others)) fuel) :
    DeliversAll (k.reader libs file fuel) (k.start libs file fuel f₀)
      (k.delivered first others) := by
  have hk : k ≠ .brotli := by
    rintro rfl
    exact hcomplete
  have hdata : Members.data (first :: others) =
      first.2 ++ Members.data others := rfl
  have hle : (k.delivered first others).length ≤
      (Members.data (first :: others)).length := by
    cases k with
    | gz => simp [Compression.delivered, hdata]
    | bz2 => simp [Compression.delivered, hdata]
    | _ => exact le_refl _
  obtain ⟨hfile', hlength⟩ := hfuel
  have hfuel' : EnoughFuel file (k.delivered first others) fuel :=
    ⟨hfile', by omega⟩
  obtain ⟨supply⟩ := Compression.supply hk hfuel'
    (Compression.decodes_delivered hcomplete hfile)
  have hall := supply.deliversAll hfault hfuel'.2
  cases k with
  | brotli => exact absurd rfl hk
  | gz => exact hall
  | bz2 => exact hall
  | zstd => exact hall
  | xz => exact hall

/-- A reader delivers all members if and only if it is not one of those that
stop at the first, or there is nothing behind the first. -/
theorem compression_deliversAll_iff
    (hcomplete : k.Complete libs (first :: others))
    (hfile : file.unread f₀ = Members.bytes (first :: others))
    (hfault : ∀ n, file.fault n = none)
    (hfuel : EnoughFuel file (Members.data (first :: others)) fuel) :
    DeliversAll (k.reader libs file fuel) (k.start libs file fuel f₀)
        (Members.data (first :: others)) ↔
      (k = .gz ∨ k = .bz2 → Members.data others = []) := by
  have hdelivers := compression_deliversAll hcomplete hfile hfault hfuel
  have hdata : Members.data (first :: others) =
      first.2 ++ Members.data others := rfl
  constructor
  · intro hall hk
    have heq := hall.unique hdelivers
    have hfirst : k.delivered first others = first.2 := by
      rcases hk with rfl | rfl <;> rfl
    rw [hfirst, hdata] at heq
    simpa using heq
  · intro hnone
    have heq : k.delivered first others = Members.data (first :: others) := by
      cases k with
      | gz =>
          rw [hdata, hnone (.inl rfl), List.append_nil]
          rfl
      | bz2 =>
          rw [hdata, hnone (.inr rfl), List.append_nil]
          rfl
      | _ => rfl
    rw [← heq]
    exact hdelivers

/-! ## A decoder for single letters -/

/-- How many bytes a decoder for one letter takes. -/
def letterTakes (ended : Bool) (input : Bytes) (room : Nat) : Nat :=
  if ended then 0 else min 1 (min input.length room)

/-- Decodes one byte to itself and reports the end. -/
def letterCodec (streamEnd : Int) : StreamCodec where
  State := Bool
  init := false
  run ended _ input room :=
    { state := ended || letterTakes ended input room == 1
      ret :=
        if ended || letterTakes ended input room == 1 then streamEnd else 0
      consumed := letterTakes ended input room
      output := input.take (letterTakes ended input room)
      consumed_le := by
        unfold letterTakes
        split <;> omega
      output_le := by
        rw [List.length_take]
        unfold letterTakes
        split <;> omega }

/-- What a call can do: nothing behind the end, nothing for lack of input or
room, or all at once. -/
theorem letterCodec_run (streamEnd action : Int) {b : UInt8} {s : Bool}
    {unread rest given : Bytes} (room : Nat)
    (hs : s = false ∧ (∃ t, unread = b :: t) ∧ rest = [b] ∨
      s = true ∧ rest = [])
    (hgiven : given <+: unread) :
    ∃ state ret consumed output,
      ((letterCodec streamEnd).run s action given room).state = state ∧
      ((letterCodec streamEnd).run s action given room).ret = ret ∧
      ((letterCodec streamEnd).run s action given room).consumed =
        consumed ∧
      ((letterCodec streamEnd).run s action given room).output = output ∧
      (rest = [] ∧ state = true ∧ ret = streamEnd ∧ consumed = 0 ∧
          output = [] ∨
        rest = [b] ∧ (∃ t, unread = b :: t) ∧ (given = [] ∨ room = 0) ∧
          state = false ∧ ret = 0 ∧ consumed = 0 ∧ output = [] ∨
        rest = [b] ∧ state = true ∧ ret = streamEnd ∧ consumed = 1 ∧
          output = [b]) := by
  rcases hs with ⟨rfl, ⟨t, rfl⟩, rfl⟩ | ⟨rfl, rfl⟩
  · by_cases hroom : room = 0
    · subst hroom
      refine ⟨false, 0, 0, [], ?_⟩
      simp [letterCodec, letterTakes]
    · cases given with
      | nil =>
          refine ⟨false, 0, 0, [], ?_⟩
          simp [letterCodec, letterTakes]
      | cons c given =>
          obtain ⟨rfl, -⟩ := List.cons_prefix_cons.mp hgiven
          have htakes : letterTakes false (c :: given) room = 1 := by
            simp only [letterTakes, List.length_cons, Bool.false_eq_true,
              if_false]
            omega
          refine ⟨true, streamEnd, 1, [c], ?_⟩
          simp [letterCodec, htakes]
  · refine ⟨true, streamEnd, 0, [], ?_⟩
    simp [letterCodec, letterTakes]

/-- A byte and whatever follows it is decoded to the byte. -/
def letterDecoding {fatal : Int → Prop} {streamEnd : Int}
    (hend : ¬fatal streamEnd) (hzero : ¬fatal 0) (hne : streamEnd ≠ 0)
    (b : UInt8) (tail : Bytes) :
    BlockDecoding (letterCodec streamEnd) fatal streamEnd ([b] ++ tail) [b]
      .complete where
  Ahead s unread rest := s = false ∧ (∃ t, unread = b :: t) ∧ rest = [b] ∨
    s = true ∧ rest = []
  Ended s := s = true
  start := .inl ⟨rfl, ⟨tail, rfl⟩, rfl⟩
  run {s unread rest action given room} hs hgiven _ _ := by
    obtain ⟨state, ret, consumed, output, hstate, hret, hconsumed, houtput,
      hcases⟩ := letterCodec_run streamEnd action room hs hgiven
    rw [hstate, hconsumed, houtput]
    rcases hcases with ⟨rfl, rfl, rfl, rfl, rfl⟩ |
      ⟨rfl, hunread, -, rfl, rfl, rfl, rfl⟩ | ⟨rfl, rfl, rfl, rfl, rfl⟩
    · exact ⟨List.nil_prefix, .inr ⟨rfl, rfl⟩⟩
    · exact ⟨List.nil_prefix, .inl ⟨rfl, hunread, rfl⟩⟩
    · exact ⟨List.prefix_refl _, .inr ⟨rfl, rfl⟩⟩
  empty h := by cases h
  eager {s unread rest given room} hs hgiven _ _ hnot := by
    obtain ⟨state, ret, consumed, output, hstate, hret, hconsumed, houtput,
      hcases⟩ := letterCodec_run streamEnd 0 room hs hgiven
    rw [hret] at hnot
    rw [hconsumed, houtput]
    rcases hcases with ⟨-, -, rfl, -⟩ | ⟨-, -, hstarved, -, -, rfl, rfl⟩ |
      ⟨-, -, rfl, -⟩
    · exact absurd rfl hnot
    · rcases hstarved with rfl | rfl
      · exact .inr rfl
      · exact .inl rfl
    · exact absurd rfl hnot
  drained {s unread rest given room} hs hgiven _ _ hnot hroom hall := by
    obtain ⟨state, ret, consumed, output, hstate, hret, hconsumed, houtput,
      hcases⟩ := letterCodec_run streamEnd 0 room hs hgiven
    rw [hret] at hnot
    rw [hconsumed] at hall
    rcases hcases with ⟨-, -, rfl, -⟩ | ⟨-, ⟨t, rfl⟩, -, -, -, rfl, -⟩ |
      ⟨-, -, rfl, -⟩
    · exact absurd rfl hnot
    · cases hall
    · exact absurd rfl hnot
  ended {s unread rest given room} hs hgiven _ hret' := by
    obtain ⟨state, ret, consumed, output, hstate, hret, hconsumed, houtput,
      hcases⟩ := letterCodec_run streamEnd 0 room hs hgiven
    rw [hret] at hret'
    rw [houtput, hstate]
    rcases hcases with ⟨rfl, rfl, -, -, rfl⟩ | ⟨-, -, -, -, rfl, -⟩ |
      ⟨rfl, rfl, -, -, rfl⟩
    · exact ⟨rfl, rfl, rfl⟩
    · exact absurd hret'.symm hne
    · exact ⟨rfl, rfl, rfl⟩
  broken {s unread rest given room} hs hgiven _ hret' := by
    obtain ⟨state, ret, consumed, output, hstate, hret, hconsumed, houtput,
      hcases⟩ := letterCodec_run streamEnd 0 room hs hgiven
    rw [hret] at hret'
    rcases hcases with ⟨-, -, rfl, -⟩ | ⟨-, -, -, -, rfl, -⟩ | ⟨-, -, rfl, -⟩
    · exact absurd hret' hend
    · exact absurd hret' hzero
    · exact absurd hret' hend
  end_fatal := hend
  beyond {s} hs given room _ := by
    subst hs
    simpa [letterCodec, letterTakes] using hend

/-- Takes one byte at a time, a frame of its own. -/
def frameCodec : StreamCodec where
  State := Unit
  init := ()
  run _ _ input room :=
    { state := ()
      ret := 0
      consumed := letterTakes false input room
      output := input.take (letterTakes false input room)
      consumed_le := by
        unfold letterTakes
        split <;> omega
      output_le := by
        rw [List.length_take]
        unfold letterTakes
        split <;> omega }

def letterLibraries : Libraries :=
  { copyLibraries with
    zlib := letterCodec 1
    zstd := ⟨true, fun _ => false, fun _ => [], frameCodec⟩ }

/-- The frames are the single bytes. -/
def letterFrames : FrameLaw letterLibraries.zstd where
  Frame m d := ∃ b, m = [b] ∧ d = [b]
  Inside _ m d := ∃ b, m = [b] ∧ d = [b]
  Between _ := True
  init := trivial
  enter _ h := h
  run {s m d tail given room} hs hgiven hne hroom := by
    obtain ⟨b, rfl, rfl⟩ := hs
    obtain ⟨c, given, rfl⟩ := List.exists_cons_of_ne_nil hne
    obtain ⟨rfl, -⟩ := List.cons_prefix_cons.mp hgiven
    have htakes : letterTakes false (c :: given) room = 1 := by
      simp only [letterTakes, List.length_cons, Bool.false_eq_true, if_false]
      omega
    simp [letterLibraries, frameCodec, htakes]
  progress {s m d tail given room} _ _ hne hroom := by
    have hpos := List.length_pos_iff.mpr hne
    left
    show letterTakes false given room ≠ 0
    simp only [letterTakes, Bool.false_eq_true, if_false]
    omega

/-- The letters `a` and `b` as two members. -/
def twoLetters : Members :=
  [([0x61], [0x61]), ([0x62], [0x62])]

def twoLettersFile : SourceFile where
  content := ⟨[0x61, 0x62], by decide⟩

theorem letters_complete (members : Members)
    (hmembers : ∀ x ∈ members, ∃ b, x = ([b], [b])) :
    Compression.gz.Complete letterLibraries members := by
  intro x hx tail
  obtain ⟨b, rfl⟩ := hmembers x hx
  exact ⟨letterDecoding (by decide) (by decide) (by decide) b tail⟩

theorem letters_complete_zstd (members : Members)
    (hmembers : ∀ x ∈ members, ∃ b, x = ([b], [b])) :
    Compression.zstd.Complete letterLibraries members := by
  refine ⟨letterFrames, ?_, ?_, ?_⟩
  · rintro s d ⟨b, hnil, -⟩
    cases hnil
  · rintro m d ⟨b, rfl, -⟩
    exact List.cons_ne_nil _ _
  · intro x hx
    obtain ⟨b, rfl⟩ := hmembers x hx
    exact ⟨b, rfl, rfl⟩

theorem twoLetters_complete_xz :
    Compression.xz.Complete letterLibraries twoLetters :=
  ⟨finishDecoding _⟩

/-- A single member is delivered in the format of gzip, and two of them in
those of xz and zstd. -/
theorem letters_delivered :
    DeliversAll (Compression.gz.reader letterLibraries letterFile 600000)
        (Compression.gz.start letterLibraries letterFile 600000 ⟨0, 0⟩)
        [0x61] ∧
      DeliversAll (Compression.xz.reader letterLibraries twoLettersFile 600000)
        (Compression.xz.start letterLibraries twoLettersFile 600000 ⟨0, 0⟩)
        [0x61, 0x62] ∧
      DeliversAll
        (Compression.zstd.reader letterLibraries twoLettersFile 600000)
        (Compression.zstd.start letterLibraries twoLettersFile 600000 ⟨0, 0⟩)
        [0x61, 0x62] := by
  have hone : EnoughFuel letterFile (Members.data [([0x61], [0x61])])
      600000 := ⟨by decide, by decide⟩
  have htwo : EnoughFuel twoLettersFile (Members.data twoLetters) 600000 :=
    ⟨by decide, by decide⟩
  have hzstd := letters_complete_zstd twoLetters (by simp [twoLetters])
  refine ⟨?_, ?_, ?_⟩
  · exact (compression_deliversAll_iff
      (letters_complete [([0x61], [0x61])] (by simp)) rfl (fun _ => rfl)
      hone).mpr fun _ => rfl
  · refine (compression_deliversAll_iff twoLetters_complete_xz rfl
      (fun _ => rfl) htwo).mpr ?_
    rintro (h | h) <;> cases h
  · refine (compression_deliversAll_iff hzstd rfl (fun _ => rfl) htwo).mpr ?_
    rintro (h | h) <;> cases h

/-- Of two members in the format of gzip, the second one is lost. -/
theorem gzip_twoLetters_not_delivered :
    ¬∀ (libs : Libraries) (file : SourceFile) (fuel : Nat) (f₀ : FileState)
        (k : Compression) (first : Bytes × Bytes) (others : Members),
      k.Complete libs (first :: others) →
      file.unread f₀ = Members.bytes (first :: others) →
      (∀ n, file.fault n = none) →
      EnoughFuel file (Members.data (first :: others)) fuel →
      DeliversAll (k.reader libs file fuel) (k.start libs file fuel f₀)
        (Members.data (first :: others)) := by
  intro hall
  have hcomplete := letters_complete twoLetters (by simp [twoLetters])
  have hfuel : EnoughFuel twoLettersFile (Members.data twoLetters) 600000 :=
    ⟨by decide, by decide⟩
  have hfile : twoLettersFile.unread ⟨0, 0⟩ = Members.bytes twoLetters := rfl
  have hdelivers := compression_deliversAll hcomplete hfile (fun _ => rfl)
    hfuel
  have hboth := hall letterLibraries twoLettersFile 600000 ⟨0, 0⟩ .gz
    ([0x61], [0x61]) [([0x62], [0x62])] hcomplete rfl (fun _ => rfl) hfuel
  have heq := hboth.unique hdelivers
  cases heq

end Baulk.Tar
