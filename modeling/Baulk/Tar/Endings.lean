import Baulk.Tar.View

/-!
# How the decompressors end

Behind the end of a stream, the decompressors for gzip, bzip2 and zstd fail
without an error code, or with the one for the end of an archive.  The one for
xz fails with an error, when it has handed over what there was.
-/

namespace Baulk.Tar

open Support (Step loop loop_spec)

/-! ## What is handed over -/

section HandsOver

variable {dec : Decompressor}

/-- What a decompressor hands over until it fails, and its failure.  To the
reader around it, no output is the end of the file. -/
inductive HandsOver (dec : Decompressor) : dec.State → Bytes → Failure → Prop
  | fails {s s' : dec.State} {e : Failure} :
      dec.decompress s = some (.error e, s') → HandsOver dec s [] e
  | nothing {s s' : dec.State} :
      dec.decompress s = some (.ok [], s') →
      HandsOver dec s [] (some endOfFile)
  | more {s s' : dec.State} {out later : Bytes} {e : Failure} :
      dec.decompress s = some (.ok out, s') → out ≠ [] →
      HandsOver dec s' later e → HandsOver dec s (out ++ later) e

def Buffered.HandsOver (b : Buffered dec) (H : Bytes) (e : Failure) : Prop :=
  ∃ later, H = b.out ++ later ∧ Tar.HandsOver dec b.state later e

theorem HandsOver.buffered {s : dec.State} {H : Bytes} {e : Failure}
    (h : HandsOver dec s H e) : (⟨[], s⟩ : Buffered dec).HandsOver H e :=
  ⟨H, rfl, h⟩

namespace Buffered.HandsOver

variable {b : Buffered dec} {H : Bytes} {e : Failure}

theorem refill (h : b.HandsOver H e) :
    ∃ b', dec.refill b = some (.ok (), b') ∧ b'.HandsOver H e ∧
        b'.out ≠ [] ∨
      H = [] ∧ (dec.refill b = some (.error e, b') ∨
        dec.refill b = some (.ok (), b') ∧ b'.out = [] ∧
          e = some endOfFile) := by
  obtain ⟨later, rfl, hlater⟩ := h
  unfold Decompressor.refill
  by_cases hempty : b.out = []
  · rw [if_pos (List.isEmpty_iff.mpr hempty), hempty]
    cases hlater with
    | fails hfails =>
        rw [hfails]
        exact ⟨_, .inr ⟨rfl, .inl (by rw [← hempty])⟩⟩
    | nothing hnone =>
        rw [hnone]
        exact ⟨_, .inr ⟨rfl, .inr ⟨rfl, rfl, rfl⟩⟩⟩
    | more hout hne hlater =>
        rw [hout]
        exact ⟨_, .inl ⟨rfl, ⟨_, rfl, hlater⟩, hne⟩⟩
  · rw [if_neg (by rwa [List.isEmpty_iff])]
    exact ⟨b, .inl ⟨rfl, ⟨later, rfl, hlater⟩, hempty⟩⟩

/-- A read takes the next bytes, or it meets the failure. -/
theorem read (h : b.HandsOver H e) {n : Nat} (hn : 0 < n) :
    ∃ b', (∃ got, dec.read n b = some (.ok got, b') ∧ got ≠ [] ∧
        got.length ≤ n ∧ got = H.take got.length ∧
        b'.HandsOver (H.drop got.length) e) ∨
      H = [] ∧ (dec.read n b = some (.error e, b') ∨
        dec.read n b = some (.ok [], b') ∧ e = some endOfFile) := by
  obtain ⟨b', ⟨hrefill, ⟨later, rfl, hlater⟩, hne⟩ |
    ⟨rfl, hrefill | ⟨hrefill, hnil, rfl⟩⟩⟩ := h.refill
  · have hle : (b'.out.take n).length ≤ b'.out.length := by
      rw [List.length_take]
      exact Nat.min_le_right _ _
    refine ⟨{ b' with out := b'.out.drop n }, .inl ⟨b'.out.take n, ?_, ?_, ?_, ?_,
      later, ?_, hlater⟩⟩
    · unfold Decompressor.read
      rw [hrefill]
    · rw [ne_eq, List.take_eq_nil_iff, not_or]
      exact ⟨by omega, hne⟩
    · rw [List.length_take]
      exact Nat.min_le_left _ _
    · rw [List.take_append_of_le_length hle, List.length_take,
        List.take_eq_take_iff]
      omega
    · rw [List.drop_append_of_le_length hle, List.length_take,
        List.append_cancel_right_eq]
      rcases le_total n b'.out.length with hn | hn
      · rw [min_eq_left hn]
      · rw [min_eq_right hn, List.drop_length, List.drop_of_length_le hn]
  · refine ⟨b', .inr ⟨rfl, .inl ?_⟩⟩
    unfold Decompressor.read
    rw [hrefill]
  · refine ⟨{ b' with out := b'.out.drop n }, .inr ⟨rfl, .inr ⟨?_, rfl⟩⟩⟩
    unfold Decompressor.read
    rw [hrefill]
    dsimp only
    rw [hnil, List.take_nil]

theorem readFull {fuel calls : Nat} :
    ∀ {n : Nat} {b : (dec.reader fuel).State} {H : Bytes},
      Buffered.HandsOver b H e → n ≤ calls →
      ∃ b' : (dec.reader fuel).State, n ≤ H.length ∧
          Tar.readFull (dec.reader fuel) calls n b =
            some (.ok (H.take n), b') ∧
          Buffered.HandsOver b' (H.drop n) e ∨
        H.length < n ∧ Tar.readFull (dec.reader fuel) calls n b =
          some (.error e, b') := by
  induction calls with
  | zero =>
      intro n b H h hn
      obtain rfl : n = 0 := by omega
      exact ⟨b, .inl ⟨Nat.zero_le _, rfl, h⟩⟩
  | succ calls ih =>
      intro n b H h hn
      cases n with
      | zero => exact ⟨b, .inl ⟨Nat.zero_le _, rfl, h⟩⟩
      | succ n =>
          unfold Tar.readFull
          obtain ⟨b₁, ⟨got, hread, hne, hlength, hgot, h₁⟩ |
            ⟨rfl, hread | ⟨hread, rfl⟩⟩⟩ := h.read (Nat.succ_pos n)
          · have hread' : (dec.reader fuel).read (n + 1) b =
                some (.ok got, b₁) := hread
            have hpos := List.length_pos_iff.mpr hne
            have hle : got.length ≤ H.length := by
              have htake := congrArg List.length hgot
              rw [List.length_take] at htake
              omega
            have hsum : got.length + (n + 1 - got.length) = n + 1 := by omega
            have hdrop : (H.drop got.length).length = H.length - got.length :=
              List.length_drop
            rw [hread']
            dsimp only
            rw [if_neg (by rwa [List.isEmpty_iff])]
            obtain ⟨b', ⟨henough, hrest, h'⟩ | ⟨hshort, hrest⟩⟩ :=
              ih (n := n + 1 - got.length) h₁ (by omega)
            · rw [hrest]
              refine ⟨b', .inl ⟨by omega, ?_, ?_⟩⟩
              · dsimp only
                conv_lhs => rw [hgot]
                rw [List.length_take, min_eq_left hle, ← List.take_add, hsum]
              · rwa [List.drop_drop, hsum] at h'
            · rw [hrest]
              exact ⟨b', .inr ⟨by omega, rfl⟩⟩
          · have hread' : (dec.reader fuel).read (n + 1) b =
                some (.error e, b₁) := hread
            rw [hread']
            exact ⟨b₁, .inr ⟨Nat.succ_pos n, rfl⟩⟩
          · have hread' : (dec.reader fuel).read (n + 1) b =
                some (.ok [], b₁) := hread
            rw [hread']
            exact ⟨b₁, .inr ⟨Nat.succ_pos n, rfl⟩⟩

end Buffered.HandsOver

variable {D : Bytes} {delivers : Delivers dec D}

theorem Delivers.at_start {s : dec.State} (h : delivers.Ahead s D) :
    delivers.At ⟨[], s⟩ 0 :=
  ⟨D, h, List.suffix_refl D, by simp⟩

/-- A decompressor fails in the end; what is handed over before comes from the
stream. -/
theorem Delivers.handsOver {s : dec.State} {rest : Bytes}
    (hahead : delivers.Ahead s rest) :
    ∃ H e s₁ s₂, HandsOver dec s H e ∧ H <+: rest ∧
      delivers.Ahead s₁ (rest.drop H.length) ∧
      (dec.decompress s₁ = some (.error e, s₂) ∨
        dec.decompress s₁ = some (.ok [], s₂) ∧ e = some endOfFile) := by
  induction hleft : rest.length using Nat.strong_induction_on
    generalizing s rest with
  | _ left ih =>
      obtain ⟨⟨outcome, s'⟩, hdecompress⟩ := delivers.returns hahead
      cases outcome with
      | error e =>
          exact ⟨[], e, s, s', .fails hdecompress, List.nil_prefix, hahead,
            .inl hdecompress⟩
      | ok out =>
          by_cases hne : out = []
          · subst hne
            exact ⟨[], _, s, s', .nothing hdecompress, List.nil_prefix, hahead,
              .inr ⟨hdecompress, rfl⟩⟩
          · obtain ⟨⟨tail, rfl⟩, hahead', -⟩ := delivers.ok hahead hdecompress
            have hpos := List.length_pos_iff.mpr hne
            rw [List.drop_left] at hahead'
            rw [List.length_append] at hleft
            obtain ⟨later, e, s₁, s₂, hlater, hbegins, hlast⟩ :=
              ih tail.length (by omega) hahead' rfl
            refine ⟨out ++ later, e, s₁, s₂, .more hdecompress hne hlater, ?_,
              ?_⟩
            · rwa [List.prefix_append_right_inj]
            · rwa [List.length_append, ← List.drop_drop, List.drop_left]

/-! ## Quiet and loud ends -/

/-- No error code, or the one that is taken for the end of an archive. -/
def EndsQuietly (failure : Failure) : Prop :=
  ∀ e, failure = some e → e.code = ErrorCode.errEnded

/-- The decompressor fails only at the end of the stream, and quietly; it never
delivers nothing. -/
structure Delivers.Quiet (delivers : Delivers dec D) : Prop where
  output : ∀ {s s' rest}, delivers.Ahead s rest →
    dec.decompress s ≠ some (.ok [], s')
  failure : ∀ {s s' rest e}, delivers.Ahead s rest →
    dec.decompress s = some (.error e, s') → rest = [] ∧ EndsQuietly e

/-- An error that names what has gone wrong. -/
def EndsLoudly (failure : Failure) : Prop :=
  ∃ m, failure = some (extractGeneral m)

/-- The decompressor fails only with an error; it never delivers nothing. -/
structure Delivers.Loud (delivers : Delivers dec D) : Prop where
  output : ∀ {s s' rest}, delivers.Ahead s rest →
    dec.decompress s ≠ some (.ok [], s')
  failure : ∀ {s s' rest e}, delivers.Ahead s rest →
    dec.decompress s = some (.error e, s') → EndsLoudly e

theorem Delivers.Quiet.handsOver (hquiet : delivers.Quiet) {s : dec.State}
    (hahead : delivers.Ahead s D) :
    ∃ e, HandsOver dec s D e ∧ EndsQuietly e := by
  obtain ⟨H, e, s₁, s₂, hhands, hbegins, hahead₁, hlast⟩ :=
    Delivers.handsOver hahead
  obtain ⟨hnil, hends⟩ := hlast.elim (hquiet.failure hahead₁)
    fun h => absurd h.1 (hquiet.output hahead₁)
  rw [List.drop_eq_nil_iff] at hnil
  obtain rfl := hbegins.eq_of_length_le hnil
  exact ⟨e, hhands, hends⟩

theorem Delivers.Loud.handsOver (hloud : delivers.Loud) {s : dec.State}
    (hahead : delivers.Ahead s D) :
    ∃ H e, HandsOver dec s H e ∧ H <+: D ∧ EndsLoudly e := by
  obtain ⟨H, e, s₁, s₂, hhands, hbegins, hahead₁, hlast⟩ :=
    Delivers.handsOver hahead
  exact ⟨H, e, hhands, hbegins, hlast.elim (hloud.failure hahead₁)
    fun h => absurd h.1 (hloud.output hahead₁)⟩

theorem Supply.handsOver {file : SourceFile} {init : dec.State}
    (supply : Supply file dec init D .complete)
    (hfault : ∀ n, file.fault n = none) : ∃ e, HandsOver dec init D e := by
  obtain ⟨H, e, s₁, s₂, hhands, hbegins, hahead, hlast⟩ :=
    Delivers.handsOver supply.start
  have hnil : D.drop H.length = [] := by
    by_contra hne
    rcases hlast with hfails | ⟨hnone, -⟩
    · exact (supply.stops hahead hfails).not_early hfault hne
    · -- Behind no output there is only a failure, which comes too early.
      obtain ⟨-, hahead', hspent⟩ := supply.delivers.ok hahead hnone
      obtain ⟨⟨outcome, s₃⟩, hnext⟩ := supply.delivers.returns hahead'
      cases outcome with
      | ok out => exact supply.delivers.spent (hspent rfl) hnext
      | error e =>
          exact (supply.stops hahead' hnext).not_early hfault hne
  rw [List.drop_eq_nil_iff] at hnil
  obtain rfl := hbegins.eq_of_length_le hnil
  exact ⟨e, hhands⟩

end HandsOver

namespace BlockStream

variable {codec : Zip.StreamCodec} {file : SourceFile}
  {fatal : Int → Option ErrorCode} {streamEnd : Int} {D rest : Bytes}
  {fate : Fate} {f₀ : FileState}
  {decoding : BlockDecoding codec (fun ret => fatal ret ≠ none) streamEnd
    (file.unread f₀) D fate} {s : BlockStream codec}

theorem step_ne_error (hfate : fate ≠ .corrupt)
    (hs : decoding.Ended s.codec ∨
      decoding.Ahead s.codec (s.input ++ file.unread s.file) rest)
    (e : Failure) (s' : BlockStream codec) :
    step fatal s ≠ .done (.error e, s') := by
  have hroom : 0 < outsize := by decide
  have hnone : fatal (codec.run s.codec 0 s.input outsize).ret = none := by
    rcases hs with hended | hahead
    · exact not_not.mp (decoding.beyond hended s.input outsize hroom).2.1
    · by_contra hsome
      exact hfate (decoding.broken hahead (List.prefix_append _ _) hroom hsome)
  intro h
  unfold step at h
  dsimp only at h
  rw [hnone] at h
  dsimp only at h
  split at h <;> cases h

/-- Without an error in the compressed data the loop ends without a code. -/
theorem error_none
    (hfatal : ∀ ret ec, fatal ret = some ec → ∃ m, ec = extractGeneral m)
    (hfate : fate ≠ .corrupt) (hfault : ∀ n, file.fault n = none)
    (hs : Stands decoding s rest) {fuel : Nat} {e : Failure}
    {s' : BlockStream codec}
    (hloop : loop (body file fatal) fuel s = some (.error e, s')) :
    e = none := by
  refine loop_spec (I := fun s => Stands decoding s rest)
    (Q := fun r => ∀ e, r.1 = .error e → e = none) ?_ hs hloop e rfl
  intro s round hs hbody
  have hspec := body_spec hfatal hs hbody
  cases round with
  | next s => exact hspec.1
  | done r =>
      obtain ⟨outcome, s'⟩ := r
      rintro e ⟨⟩
      unfold body at hbody
      split at hbody
      · rename_i hrefill
        split at hbody
        · rename_i hread
          obtain ⟨-, n, err, hfailed, -⟩ := FileReader.read_error_unread hread
          rw [hfault] at hfailed
          cases hfailed
        · rename_i got f hread
          obtain ⟨hunread, -⟩ := FileReader.read_ok_unread hread (by decide)
          split at hbody
          · cases hbody
            rfl
          · have hmoved : decoding.Ended s.codec ∨
                decoding.Ahead s.codec (got ++ file.unread f) rest := by
              rcases hs.1 with hended | ⟨hahead, hdone⟩
              · exact .inl hended.1
              · obtain ⟨hnil, -⟩ := hdone hrefill
                rw [hnil, List.nil_append, hunread] at hahead
                exact .inr hahead
            exact absurd (Option.some.inj hbody)
              (step_ne_error hfate hmoved e s')
      · exact absurd (Option.some.inj hbody)
          (step_ne_error hfate (hs.1.imp And.left And.left) e s')

end BlockStream

namespace ZstdStream

variable {c : Zip.ZstdCodec} {file : SourceFile} {D rest : Bytes}
  {fate : Fate} {f₀ : FileState} {decoding : ZstdDecoding file c f₀ D fate}
  {s : ZstdStream c.codec}

theorem step_ne_error (hfate : fate ≠ .corrupt) (hs : Stands decoding s rest)
    (hinput : s.input ≠ []) (e : Failure) (s' : ZstdStream c.codec) :
    step c s ≠ .done (.error e, s') := by
  have hroom : 0 < Zip.zstdOutSize := by decide
  have hgood : ¬c.isError (c.codec.run s.codec 0 s.input Zip.zstdOutSize).ret =
      true := fun herror => hfate
    (decoding.broken hs.1 (List.prefix_append _ _) hinput hroom herror)
  intro h
  unfold step at h
  dsimp only at h
  rw [if_neg hgood] at h
  split at h <;> cases h

theorem error_none (hfate : fate ≠ .corrupt) (hfault : ∀ n, file.fault n = none)
    (hs : Stands decoding s rest) {fuel : Nat} {e : Failure}
    {s' : ZstdStream c.codec}
    (hloop : loop (body c file) fuel s = some (.error e, s')) :
    e = none := by
  refine loop_spec (I := fun s => Stands decoding s rest)
    (Q := fun r => ∀ e, r.1 = .error e → e = none) ?_ hs hloop e rfl
  intro s round hs hbody
  have hspec := body_spec hs hbody
  cases round with
  | next s => exact hspec.1
  | done r =>
      obtain ⟨outcome, s'⟩ := r
      rintro e ⟨⟩
      unfold body at hbody
      split at hbody
      · rename_i hempty
        rw [List.isEmpty_iff] at hempty
        split at hbody
        · rename_i hread
          obtain ⟨-, n, err, hfailed, -⟩ := FileReader.read_error_unread hread
          rw [hfault] at hfailed
          cases hfailed
        · rename_i got f hread
          obtain ⟨hunread, -⟩ := FileReader.read_ok_unread hread (by decide)
          split at hbody
          · cases hbody
            rfl
          · rename_i hsome
            rw [List.isEmpty_iff] at hsome
            have hmoved :
                Stands decoding { s with file := f, input := got } rest := by
              unfold Stands left at hs ⊢
              rwa [hempty, List.nil_append, hunread] at hs
            exact absurd (Option.some.inj hbody)
              (step_ne_error hfate hmoved hsome e s')
      · rename_i hsome
        rw [List.isEmpty_iff] at hsome
        exact absurd (Option.some.inj hbody)
          (step_ne_error hfate hs hsome e s')

end ZstdStream

section Formats

variable {file : SourceFile} {fuel : Nat} {f₀ : FileState} {D : Bytes}
  {fate : Fate}

theorem Stops.of_none {rest : Bytes} {e : Failure}
    (h : Stops file fate rest e) (he : e = none) :
    rest = [] ∧ EndsQuietly e := by
  subst he
  cases h with
  | silent _ hrest =>
      refine ⟨hrest, ?_⟩
      intro e he
      cases he

theorem Stops.of_corrupt {rest : Bytes} {e : Failure}
    (h : Stops file .corrupt rest e) (hfault : ∀ n, file.fault n = none) :
    EndsLoudly e := by
  cases h with
  | system hfailed => simp [hfault] at hfailed
  | silent hnot _ => exact absurd rfl hnot
  | ended hfate _ => cases hfate
  | broken _ => exact ⟨_, rfl⟩

theorem GzipDecoding.quiet {zError : Int → WString} {codec : Zip.StreamCodec}
    (decoding : GzipDecoding file zError codec f₀ D fate)
    (hfate : fate ≠ .corrupt) (hfault : ∀ n, file.fault n = none)
    (hfuel : file.content.bytes.length + 2 < fuel) :
    (GzipDecoding.delivers decoding hfuel).Quiet where
  output hs h := ((GzipDecoding.delivers decoding hfuel).ok hs h).2.2 rfl
  failure hs hfails :=
    (GzipDecoding.stops decoding hs hfails).1.of_none
      (BlockStream.error_none (fun _ _ => gzipFatal_eq) hfate hfault hs hfails)

theorem BzipDecoding.quiet {codec : Zip.StreamCodec}
    (decoding : BzipDecoding file codec f₀ D fate)
    (hfate : fate ≠ .corrupt) (hfault : ∀ n, file.fault n = none)
    (hfuel : file.content.bytes.length + 2 < fuel) :
    (BzipDecoding.delivers decoding hfuel).Quiet where
  output hs h := ((BzipDecoding.delivers decoding hfuel).ok hs h).2.2 rfl
  failure hs hfails := by
    have hstops := (BzipDecoding.stops decoding hs hfails).1
    unfold bzipDecompressor at hfails
    dsimp only at hfails
    split at hfails
    · rename_i hend
      cases hfails
      refine ⟨(hs.2 hend).1, ?_⟩
      rintro _ ⟨⟩
      rfl
    · exact hstops.of_none
        (BlockStream.error_none (fun _ _ => bzipFatal_eq) hfate hfault hs
          hfails)

theorem FrameDecoding.quiet {c : Zip.ZstdCodec}
    (decoding : ZstdDecoding file c f₀ D fate) (hprompt : decoding.Prompt)
    (hfate : fate ≠ .corrupt) (hfault : ∀ n, file.fault n = none)
    (hfuel : file.content.bytes.length < fuel) :
    (FrameDecoding.delivers decoding hfuel).Quiet where
  output hs h := ((FrameDecoding.delivers decoding hfuel).ok hs h).2.2 rfl
  failure hs hfails :=
    (FrameDecoding.stops decoding hprompt hs hfails).1.of_none
      (ZstdStream.error_none hfate hfault hs hfails)

theorem GzipDecoding.loud {zError : Int → WString} {codec : Zip.StreamCodec}
    (decoding : GzipDecoding file zError codec f₀ D .corrupt)
    (hfault : ∀ n, file.fault n = none)
    (hfuel : file.content.bytes.length + 2 < fuel) :
    (GzipDecoding.delivers decoding hfuel).Loud where
  output hs h := ((GzipDecoding.delivers decoding hfuel).ok hs h).2.2 rfl
  failure hs hfails :=
    (GzipDecoding.stops decoding hs hfails).1.of_corrupt hfault

theorem BzipDecoding.loud {codec : Zip.StreamCodec}
    (decoding : BzipDecoding file codec f₀ D .corrupt)
    (hfault : ∀ n, file.fault n = none)
    (hfuel : file.content.bytes.length + 2 < fuel) :
    (BzipDecoding.delivers decoding hfuel).Loud where
  output hs h := ((BzipDecoding.delivers decoding hfuel).ok hs h).2.2 rfl
  failure hs hfails :=
    (BzipDecoding.stops decoding hs hfails).1.of_corrupt hfault

theorem FrameDecoding.loud {c : Zip.ZstdCodec}
    (decoding : ZstdDecoding file c f₀ D .corrupt) (hprompt : decoding.Prompt)
    (hfault : ∀ n, file.fault n = none)
    (hfuel : file.content.bytes.length < fuel) :
    (FrameDecoding.delivers decoding hfuel).Loud where
  output hs h := ((FrameDecoding.delivers decoding hfuel).ok hs h).2.2 rfl
  failure hs hfails :=
    (FrameDecoding.stops decoding hprompt hs hfails).1.of_corrupt hfault

/-- The decoders for gzip, bzip2 and zstd end quietly, if there is no error in
the compressed data. -/
theorem Compression.quiet {libs : Libraries} {k : Compression}
    (hbrotli : k ≠ .brotli) (hxz : k ≠ .xz) (hfate : fate ≠ .corrupt)
    (hfuel : EnoughFuel file D fuel) (hfault : ∀ n, file.fault n = none)
    (hdecodes : k.DecodesPromptly libs file f₀ D fate) :
    ∃ delivers : Delivers (k.decompressor libs file fuel) D,
      delivers.Quiet ∧ delivers.Ahead (k.init libs file fuel f₀) D := by
  have hfile := hfuel.1
  have hroom : 0 < xzoutsize := by decide
  cases k with
  | gz =>
      obtain ⟨decoding⟩ := hdecodes
      exact ⟨_, GzipDecoding.quiet decoding hfate hfault (by omega),
        BlockStream.stands_start (by decide)⟩
  | bz2 =>
      obtain ⟨decoding⟩ := hdecodes
      exact ⟨_, BzipDecoding.quiet decoding hfate hfault (by omega),
        BlockStream.stands_start (by decide)⟩
  | zstd =>
      obtain ⟨decoding, hprompt⟩ := hdecodes
      exact ⟨_, FrameDecoding.quiet decoding hprompt hfate hfault (by omega),
        ZstdStream.stands_start⟩
  | xz => exact absurd rfl hxz
  | brotli => exact absurd rfl hbrotli

end Formats

/-! ## The end of xz -/

namespace XzStream

variable {codec : Zip.StreamCodec} {file : SourceFile} {D rest : Bytes}
  {f₀ : FileState} {fuel : Nat} {s : XzStream codec}
  {decoding : XzDecoding file codec f₀ D .complete}

/-- A complete stream is handed over in full buffers, and the rest of it at the
end. -/
theorem step_complete (hs : Running decoding s rest)
    (hfinish : s.input = [] → file.unread s.file = [])
    {r : Except Failure Bytes × XzStream codec} (h : step s = .done r) :
    ∃ out s', r = (.ok out, s') ∧
      (out.length = xzoutsize ∨ s'.ret = lzmaStreamEnd) := by
  obtain ⟨⟨r₀, -, hahead⟩, hroom, -⟩ := hs
  unfold step at h
  dsimp only at h
  generalize haction : (if s.input.isEmpty then Zip.lzmaFinish
    else Zip.lzmaRun) = action at h
  have hcall := lzmaCall hroom hfinish haction
  split at h
  · rename_i hfull
    cases h
    exact ⟨_, _, rfl, hfull⟩
  · rename_i hkeep
    rw [not_or] at hkeep
    split at h
    · rename_i hfatal
      exact absurd rfl (decoding.broken hahead (List.prefix_append _ _)
        hcall ⟨hfatal, hkeep.2⟩)
    · cases h

theorem loop_complete (hfault : ∀ n, file.fault n = none)
    (hs : Stands decoding s rest) (hrunning : s.ret ≠ lzmaStreamEnd)
    {r : Except Failure Bytes × XzStream codec}
    (hloop : loop (body file) fuel s = some r) :
    ∃ out s', r = (.ok out, s') ∧
      (out.length = xzoutsize ∨ s'.ret = lzmaStreamEnd) := by
  refine loop_spec
    (I := fun s => Stands decoding s rest ∧ s.ret ≠ lzmaStreamEnd)
    (Q := fun r => ∃ out s', r = (.ok out, s') ∧
      (out.length = xzoutsize ∨ s'.ret = lzmaStreamEnd)) ?_ ⟨hs, hrunning⟩
    hloop
  rintro s round ⟨hs, hrunning⟩ hbody
  have hspec := body_spec hs hrunning hbody
  cases round with
  | next s => exact ⟨hspec.1, hspec.2.1⟩
  | done r =>
      rcases hs with ⟨hend, -⟩ | ⟨-, hs, hnone⟩
      · exact absurd hend hrunning
      unfold body at hbody
      split at hbody
      · rename_i hrefill
        have hempty : s.input = [] :=
          hrefill.elim List.isEmpty_iff.mp hnone
        split at hbody
        · rename_i hread
          obtain ⟨-, n, err, hfailed, -⟩ := FileReader.read_error_unread hread
          rw [hfault] at hfailed
          cases hfailed
        · rename_i got f hread
          obtain ⟨hunread, hend⟩ := FileReader.read_ok_unread hread (by decide)
          have hmoved :
              Running decoding { s with file := f, input := got } rest := by
            obtain ⟨hahead, hroom, hfresh, hle⟩ := hs
            rw [hempty, List.nil_append, hunread] at hahead hle
            exact ⟨hahead, hroom, hfresh, hle⟩
          refine step_complete hmoved ?_ (Option.some.inj hbody)
          intro hnil
          have hall := hend hnil
          rw [hunread, List.append_eq_nil_iff] at hall
          exact hall.2
      · rename_i hkeep
        rw [not_or, List.isEmpty_iff] at hkeep
        exact step_complete hs (fun hnil => absurd hnil hkeep.1)
          (Option.some.inj hbody)

/-- A complete stream that fits into the buffer is handed over at once. -/
theorem decompress_short (hfault : ∀ n, file.fault n = none)
    (hfuel : 2 * (file.content.bytes.length + xzoutsize) + 1 < fuel)
    (decoding : XzDecoding file codec f₀ D .complete)
    (hD : D.length < xzoutsize) :
    ∃ s', (xzDecompressor file codec fuel).decompress
        ({ file := f₀, codec := codec.init } : XzStream codec) =
          some (.ok D, s') ∧
      (xzDecompressor file codec fuel).decompress s' =
        some (.error (some (extractGeneral (wide "xz stream end"))), s') := by
  have hstart : Stands decoding { file := f₀, codec := codec.init } D :=
    stands_start
  have hrunning : (0 : Int) ≠ lzmaStreamEnd := by decide
  obtain ⟨r, hloop⟩ := loop_body_returns hstart hrunning hfuel
  obtain ⟨out, s', rfl, hfull⟩ := loop_complete hfault hstart hrunning hloop
  obtain ⟨hbegins, hstands, -⟩ := loop_body_spec hstart hrunning hloop
  have hle := hbegins.length_le
  have hend : s'.ret = lzmaStreamEnd := hfull.resolve_left (by omega)
  have hrest : D.drop out.length = [] := by
    rcases hstands with ⟨-, hrest, -⟩ | ⟨hnot, -⟩
    · exact hrest
    · exact absurd hend hnot
  rw [List.drop_eq_nil_iff] at hrest
  obtain rfl : out = D := hbegins.eq_of_length_le hrest
  refine ⟨s', ?_, if_pos hend⟩
  unfold xzDecompressor
  dsimp only
  rw [if_neg hrunning, hloop]

/-- A complete stream that fits into the buffer ends with an error, unless there
was nothing. -/
theorem handsOver_short (hfault : ∀ n, file.fault n = none)
    (hfuel : 2 * (file.content.bytes.length + xzoutsize) + 1 < fuel)
    (decoding : XzDecoding file codec f₀ D .complete)
    (hD : D.length < xzoutsize) :
    ∃ e, HandsOver (xzDecompressor file codec fuel)
        ({ file := f₀, codec := codec.init } : XzStream codec) D e ∧
      (D ≠ [] → EndsLoudly e) ∧ (D = [] → EndsQuietly e) := by
  obtain ⟨s', hall, hend⟩ := decompress_short hfault hfuel decoding hD
  by_cases hne : D = []
  · subst hne
    refine ⟨_, .nothing hall, fun h => absurd rfl h, fun _ => ?_⟩
    rintro _ ⟨⟩
    rfl
  · have hhands := HandsOver.more hall hne (.fails hend)
    rw [List.append_nil] at hhands
    exact ⟨_, hhands, fun _ => ⟨_, rfl⟩, fun h => absurd h hne⟩

/-- Without a failure of the file, an error is one of liblzma. -/
theorem decompress_loud {s s' : XzStream codec} {e : Failure}
    (hfault : ∀ n, file.fault n = none)
    (h : (xzDecompressor file codec fuel).decompress s =
      some (.error e, s')) : EndsLoudly e := by
  have hstep : ∀ {s s' : XzStream codec} {e : Failure},
      step s = .done (.error e, s') → EndsLoudly e := by
    intro s s' e h
    unfold step at h
    dsimp only at h
    generalize (if s.input.isEmpty then Zip.lzmaFinish else Zip.lzmaRun) =
      action at h
    split at h
    · cases h
    · split at h <;> cases h
      exact ⟨_, rfl⟩
  unfold xzDecompressor at h
  dsimp only at h
  split at h
  · cases h
    exact ⟨_, rfl⟩
  refine loop_spec (I := fun _ => True)
    (Q := fun r => ∀ e, r.1 = .error e → EndsLoudly e) ?_ trivial h e rfl
  intro s round _ hbody
  cases round with
  | next s => trivial
  | done r =>
      obtain ⟨outcome, s'⟩ := r
      rintro e ⟨⟩
      unfold body at hbody
      split at hbody
      · split at hbody
        · rename_i hread
          obtain ⟨-, n, err, hfailed, -⟩ := FileReader.read_error_unread hread
          rw [hfault] at hfailed
          cases hfailed
        · exact hstep (Option.some.inj hbody)
      · exact hstep (Option.some.inj hbody)

end XzStream

section Formats

variable {file : SourceFile} {fuel : Nat} {f₀ : FileState} {D : Bytes}
  {fate : Fate}

theorem LzmaDecoding.loud {codec : Zip.StreamCodec}
    (decoding : XzDecoding file codec f₀ D fate) (hfate : fate ≠ .complete)
    (hfault : ∀ n, file.fault n = none)
    (hfuel : 2 * (file.content.bytes.length + xzoutsize) + 1 < fuel) :
    (LzmaDecoding.delivers decoding hfuel).Loud where
  output hs h := by
    obtain ⟨-, hs', hspent⟩ :=
      (LzmaDecoding.delivers decoding hfuel).ok hs h
    rcases id hs' with ⟨-, -, hcomplete⟩ | ⟨hrunning, -⟩
    · exact hfate hcomplete
    · exact hrunning (hspent rfl)
  failure _ hfails := XzStream.decompress_loud hfault hfails

/-- In corrupt data the decoders end loudly, and that for xz also where the data
are truncated. -/
theorem Compression.loud {libs : Libraries} {k : Compression}
    (hbrotli : k ≠ .brotli)
    (hfate : fate = .corrupt ∨ k = .xz ∧ fate ≠ .complete)
    (hfuel : EnoughFuel file D fuel) (hfault : ∀ n, file.fault n = none)
    (hdecodes : k.DecodesPromptly libs file f₀ D fate) :
    ∃ delivers : Delivers (k.decompressor libs file fuel) D,
      delivers.Loud ∧ delivers.Ahead (k.init libs file fuel f₀) D := by
  have hfile := hfuel.1
  have hroom : 0 < xzoutsize := by decide
  have hcorrupt : k ≠ .xz → fate = .corrupt := fun hxz =>
    hfate.resolve_right fun h => hxz h.1
  cases k with
  | gz =>
      obtain ⟨decoding⟩ := hdecodes
      obtain rfl := hcorrupt (by decide)
      exact ⟨_, GzipDecoding.loud decoding hfault (by omega),
        BlockStream.stands_start (by decide)⟩
  | bz2 =>
      obtain ⟨decoding⟩ := hdecodes
      obtain rfl := hcorrupt (by decide)
      exact ⟨_, BzipDecoding.loud decoding hfault (by omega),
        BlockStream.stands_start (by decide)⟩
  | zstd =>
      obtain ⟨decoding, hprompt⟩ := hdecodes
      obtain rfl := hcorrupt (by decide)
      exact ⟨_, FrameDecoding.loud decoding hprompt hfault (by omega),
        ZstdStream.stands_start⟩
  | xz =>
      obtain ⟨decoding⟩ := hdecodes
      have hne : fate ≠ .complete := by
        rcases hfate with rfl | h
        · decide
        · exact h.2
      exact ⟨_, LzmaDecoding.loud decoding hne hfault (by omega),
        XzStream.stands_start⟩
  | brotli => exact absurd rfl hbrotli

end Formats

end Baulk.Tar
