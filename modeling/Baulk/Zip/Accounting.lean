import Baulk.Zip.Decompress

/-!
# What the decompression loops keep

The loops of all methods but storing treat their output alike: each chunk is
added to the checksum and handed to the writer, a refusal ends the method with
`ErrCanceled`, and a successful end is left to the checksum.  A property of the
checksum and the chunks so far which one such step keeps is therefore kept by
every method.
-/

namespace Baulk.Zip

open Archive (Summator)
open Session (chunks)
open Support (Step loop loop_spec)

/-- A property of a running method, and what it gives in the end. -/
structure Accounting (env : Env) where
  Holds : Summator → Session → Prop
  Ends : Outcome → Prop
  of_chunks : ∀ {sum s s'}, Holds sum s → chunks s'.trace = chunks s.trace →
    Holds sum s'
  deliver : ∀ {sum s chunk}, Holds sum s →
    (deliver env sum chunk s).1 = true →
    Holds (deliver env sum chunk s).2.1 (deliver env sum chunk s).2.2
  fail : ∀ {sum s} ec, Holds sum s → Ends (.fail ec s)
  canceled : ∀ s, Ends (.canceled s)
  finish : ∀ {sum s}, Holds sum s → Ends (.finish sum s)

variable {env : Env} (A : Accounting env)

/-! ## Loops over chunks -/

theorem chunks_fetch (env : Env) (size : Nat) (input : Input) (s : Session) :
    chunks (fetch env size input s).2.trace = chunks s.trace := by
  have hread := Session.chunks_readFull env (min input.csize size) s
  unfold fetch
  dsimp only
  rcases h : s.readFull env (min input.csize size) with ⟨e | got, s'⟩ <;>
    rw [h] at hread
  · exact hread
  · exact (Session.chunks_log_feed s' _ _).trans hread

namespace Accounting

/-- The property in a drain loop. -/
def Drains {σ : Type} (d : Drain σ) : Prop :=
  A.Holds d.sum d.session

/-- What a drain loop leaves. -/
def Drained {σ : Type} : Except Outcome (Bool × Drain σ) → Prop
  | .error o => A.Ends o
  | .ok (_, d) => A.Drains d

theorem blockDrainBody_keeps (codec : StreamCodec) (streamEnd : Int)
    (fatal : Int → Option ErrorCode) (d : Drain codec.State)
    (step : Step (Drain codec.State)
      (Except Outcome (Bool × Drain codec.State)))
    (hd : A.Drains d)
    (h : blockDrainBody env codec streamEnd fatal d = some step) :
    step.Sat A.Drains A.Drained := by
  unfold blockDrainBody at h
  dsimp only at h
  split at h
  · cases h
    exact A.fail _ hd
  split at h
  · cases h
    exact A.canceled _
  · rename_i haccepted
    have hdeliver := A.deliver hd (by simpa using haccepted)
    split at h <;> cases h <;> exact hdeliver

theorem zstdDrainBody_keeps (c : ZstdCodec) (d : Drain c.codec.State)
    (step : Step (Drain c.codec.State)
      (Except Outcome (Bool × Drain c.codec.State)))
    (hd : A.Drains d) (h : zstdDrainBody env c d = some step) :
    step.Sat A.Drains A.Drained := by
  unfold zstdDrainBody at h
  dsimp only at h
  split at h
  · cases h
    exact hd
  split at h
  · cases h
    exact A.fail _ hd
  split at h
  · cases h
    exact A.canceled _
  · rename_i haccepted
    cases h
    exact A.deliver hd (by simpa using haccepted)

theorem brotliDrainBody_keeps (c : BrotliCodec) (d : Drain c.codec.State)
    (step : Step (Drain c.codec.State)
      (Except Outcome (Bool × Drain c.codec.State)))
    (hd : A.Drains d) (h : brotliDrainBody env c d = some step) :
    step.Sat A.Drains A.Drained := by
  unfold brotliDrainBody at h
  dsimp only at h
  -- Without output neither the sum nor the writer is called.
  generalize hr : (if (c.codec.run d.state 0 d.input outsize).output.length = 0
    then (true, d.sum, d.session)
    else Zip.deliver env d.sum
      (c.codec.run d.state 0 d.input outsize).output d.session) = r at h
  split at h
  · cases h
    exact A.canceled _
  rename_i haccepted
  have hdeliver : A.Holds r.2.1 r.2.2 := by
    subst hr
    split at haccepted
    · rename_i hnone
      rw [if_pos hnone]
      exact hd
    · rename_i hsome
      rw [if_neg hsome]
      exact A.deliver hd (by simpa using haccepted)
  split at h
  · cases h
    exact hdeliver
  split at h
  · cases h
    exact A.fail _ hdeliver
  · split at h <;> cases h <;> exact hdeliver

theorem chunkBody_keeps (size : Nat) {σ : Type}
    {drain : Drain σ → Option (Except Outcome (Bool × Drain σ))}
    (hdrain : ∀ d r, A.Drains d → drain d = some r → A.Drained r) (l : ChunkLoop σ)
    (step : Step (ChunkLoop σ) Outcome) (hl : A.Holds l.sum l.session)
    (h : chunkBody env size drain l = some step) :
    step.Sat (fun l => A.Holds l.sum l.session) A.Ends := by
  unfold chunkBody at h
  split at h
  · cases h
    exact A.finish hl
  · have hchunks := chunks_fetch env size l.input l.session
    rcases hfetch : fetch env size l.input l.session
      with ⟨ec | ⟨given, input⟩, s'⟩ <;> rw [hfetch] at h hchunks
    · cases h
      exact A.fail _ (A.of_chunks hl hchunks)
    · dsimp only at h
      have hl' := A.of_chunks hl hchunks
      cases hrun : drain ⟨l.state, given, l.sum, s'⟩ with
      | none =>
          rw [hrun] at h
          contradiction
      | some r =>
          have hr := hdrain ⟨l.state, given, l.sum, s'⟩ r hl' hrun
          rw [hrun] at h
          rcases r with o | ⟨ended, d⟩
          · cases h
            exact hr
          · dsimp only at h
            split at h <;> cases h
            · exact A.finish hr
            · exact hr

theorem decompressChunks_ends (size : Nat) {σ : Type} (init : σ)
    {drain : Drain σ → Option (Except Outcome (Bool × Drain σ))}
    (hdrain : ∀ d r, A.Drains d → drain d = some r → A.Drained r)
    {file : File} {buffer : Bytes} {fuel : Nat} {s : Session} {o : Outcome}
    (hs : A.Holds { target := file.crc32Value.toBitVec } s)
    (h : decompressChunks env size init drain file buffer fuel s = some o) :
    A.Ends o :=
  loop_spec (A.chunkBody_keeps size hdrain) hs h

/-! ## XZ and LZMA -/

theorem lzmaRefill_keeps {codec : StreamCodec} {l : LzmaLoop codec}
    (hl : A.Holds l.sum l.session) :
    (∀ o, lzmaRefill env l = .error o → A.Ends o) ∧
      ∀ l', lzmaRefill env l = .ok l' → A.Holds l'.sum l'.session := by
  have hchunks := chunks_fetch env xzinsize l.source l.session
  unfold lzmaRefill
  split
  · rcases hfetch : fetch env xzinsize l.source l.session
      with ⟨ec | ⟨given, source⟩, s⟩ <;> rw [hfetch] at hchunks
    · refine ⟨?_, by simp⟩
      rintro _ ⟨⟩
      exact A.fail _ (A.of_chunks hl hchunks)
    · refine ⟨by simp, ?_⟩
      rintro _ ⟨⟩
      exact A.of_chunks hl hchunks
  · refine ⟨by simp, ?_⟩
    rintro _ ⟨⟩
    exact hl

theorem lzmaBody_keeps (codec : StreamCodec) (l : LzmaLoop codec)
    (step : Step (LzmaLoop codec) Outcome) (hl : A.Holds l.sum l.session)
    (h : lzmaBody env codec l = some step) :
    step.Sat (fun l => A.Holds l.sum l.session) A.Ends := by
  obtain ⟨herror, hok⟩ := A.lzmaRefill_keeps hl
  unfold lzmaBody at h
  cases hl' : lzmaRefill env l with
  | error o =>
      rw [hl'] at h
      cases h
      exact herror o hl'
  | ok l' =>
      rw [hl'] at h
      have hholds := hok l' hl'
      dsimp only at h
      generalize codec.run l'.state l'.action l'.input
        (xzoutsize - l'.pending.length) = run at h
      generalize hr : (if (l'.pending ++ run.output).length = xzoutsize ∨
          run.ret = 1
        then Zip.deliver env l'.sum (l'.pending ++ run.output) l'.session
        else (true, l'.sum, l'.session)) = r at h
      split at h
      · cases h
        exact A.canceled _
      rename_i haccepted
      have hdeliver : A.Holds r.2.1 r.2.2 := by
        subst hr
        split at haccepted
        · rename_i hfull
          rw [if_pos hfull]
          exact A.deliver hholds (by simpa using haccepted)
        · rename_i hroom
          rw [if_neg hroom]
          exact hholds
      split at h
      · cases h
        exact A.finish hdeliver
      split at h
      · cases h
        exact A.fail _ hdeliver
      · cases h
        exact hdeliver

theorem decompressXz_ends (c : LzmaCodec) {file : File} {buffer : Bytes}
    {fuel : Nat} {s : Session} {o : Outcome}
    (hs : A.Holds { target := file.crc32Value.toBitVec } s)
    (h : decompressXz env c file buffer fuel s = some o) : A.Ends o := by
  unfold decompressXz at h
  split at h
  · cases h
    exact A.fail _ hs
  · exact loop_spec (A.lzmaBody_keeps c.codec) hs h

theorem decompressLZMA_ends (c : LzmaCodec) {file : File} {buffer : Bytes}
    {fuel : Nat} {s : Session} {o : Outcome}
    (hs : A.Holds { target := file.crc32Value.toBitVec } s)
    (h : decompressLZMA env c file buffer fuel s = some o) : A.Ends o := by
  unfold decompressLZMA at h
  split at h
  · cases h
    exact A.fail _ hs
  have hchunks := Session.chunks_readFull env 9 s
  rcases hread : s.readFull env 9 with ⟨ec | got, s'⟩ <;>
    rw [hread] at h hchunks
  · cases h
    exact A.fail _ (A.of_chunks hs hchunks)
  dsimp only at h hchunks
  have hs' := A.of_chunks hs hchunks
  split at h
  · cases h
    exact A.fail _ hs'
  have hlog := A.of_chunks hs' (Session.chunks_log_properties s' got
    (((overwrite (List.replicate 16 0) got).drop 4).take 5))
  split at h
  · cases h
    exact A.fail _ hlog
  · exact loop_spec (A.lzmaBody_keeps c.codec) hlog h

end Accounting

/-! ## Deflate64 -/

theorem chunks_inflate64Get (env : Env) (r : Inflate64Reader) (s : Session) :
    chunks (r.get env s).2.2.trace = chunks s.trace := by
  unfold Inflate64Reader.get
  split
  · rfl
  · have hread := Session.chunks_readUpTo env r.want s
    rcases h : s.readUpTo env r.want with ⟨e | got, s'⟩ <;> rw [h] at hread
    · exact hread
    · exact (Session.chunks_log_feed s' _ _).trans hread

namespace Accounting

/-- The decoder may go on after a refusal, but the refusal is remembered. -/
theorem deflate64Body_keeps (c : Deflate64Codec) (l : Deflate64Loop c)
    (step : Step (Deflate64Loop c) (Int × Deflate64Loop c))
    (hl : l.canceled = true ∨ A.Holds l.sum l.session)
    (h : deflate64Body env c l = some step) :
    step.Sat (fun l => l.canceled = true ∨ A.Holds l.sum l.session)
      (fun r => r.2.canceled = true ∨ A.Holds r.2.sum r.2.session) := by
  unfold deflate64Body at h
  split at h <;> cases h
  · exact hl.imp_right fun hl =>
      A.of_chunks hl (chunks_inflate64Get env l.reader l.session)
  · rename_i chunk _ _
    cases haccepted : (Zip.deliver env l.sum chunk l.session).1 with
    | true =>
        refine hl.imp (fun hcanceled => ?_) fun hl => A.deliver hl haccepted
        simp [hcanceled]
    | false =>
        left
        simp
  · exact hl

theorem decompressDeflate64_ends (c : Deflate64Codec) {file : File}
    {buffer : Bytes} {fuel : Nat} {s : Session} {o : Outcome}
    (hs : A.Holds { target := file.crc32Value.toBitVec } s)
    (h : decompressDeflate64 env c file buffer fuel s = some o) :
    A.Ends o := by
  unfold decompressDeflate64 at h
  split at h
  · cases h
    exact A.fail _ hs
  split at h
  · contradiction
  · rename_i ret l hrun
    have hend := loop_spec (A.deflate64Body_keeps c) (.inr hs) hrun
    dsimp only at hend
    split at h
    · cases h
      exact A.canceled _
    rename_i hnot
    have hholds := hend.resolve_left (by simpa using hnot)
    split at h <;> cases h
    · exact A.fail _ hholds
    · exact A.finish hholds

end Accounting

/-! ## PPMd -/

theorem chunks_sectionRead (env : Env) (len : Nat) (sr : SectionReader)
    (s : Session) : chunks (sr.read env len s).2.2.trace = chunks s.trace := by
  unfold SectionReader.read
  split
  · dsimp only
    split
    · rfl
    · have hread := Session.chunks_readFile env
        (SectionReader.refill { sr with r := 0, w := 0 }) s
      rcases h : s.readFile env
          (SectionReader.refill { sr with r := 0, w := 0 })
        with ⟨e | got, s'⟩ <;> rw [h] at hread
      · exact hread
      · exact (Session.chunks_log_feed s' _ _).trans hread
  · rfl

theorem chunks_sectionReadFull (env : Env) (calls : Nat) :
    ∀ (len : Nat) (sr : SectionReader) (s : Session),
      chunks (SectionReader.readFull env calls len sr s).2.2.trace =
        chunks s.trace := by
  induction calls with
  | zero =>
      intro len sr s
      rfl
  | succ calls ih =>
      intro len sr s
      unfold SectionReader.readFull
      split
      · rfl
      · have hread := chunks_sectionRead env len sr s
        rcases h : sr.read env len s with ⟨e | got, sr', s'⟩ <;>
          rw [h] at hread
        · exact hread
        · dsimp only at hread ⊢
          have hrest := ih (len - got.length) sr' s'
          rcases h' : SectionReader.readFull env calls (len - got.length)
            sr' s' with ⟨e | rest, sr'', s''⟩ <;> rw [h'] at hrest <;>
            exact hrest.trans hread

theorem chunks_ppmdCall (env : Env) (c : PpmdCodec) {fuel : Nat}
    {p : PpmdState c} {r : Int × PpmdState c}
    (h : ppmdCall env c fuel p = some r) :
    chunks r.2.session.trace = chunks p.session.trace := by
  refine loop_spec
    (I := fun q => chunks q.session.trace = chunks p.session.trace)
    (Q := fun r => chunks r.2.session.trace = chunks p.session.trace)
    ?_ rfl h
  intro q step hq hstep
  unfold ppmdRequestBody at hstep
  split at hstep <;> cases hstep
  · exact (chunks_sectionReadFull env 1 1 q.reader q.session).trans hq
  · exact hq

theorem chunks_ppmdFill (env : Env) (c : PpmdCodec) {fuel : Nat}
    {l r : Bytes × PpmdState c}
    (h : loop (ppmdFillBody env c fuel) fuel l = some r) :
    chunks r.2.session.trace = chunks l.2.session.trace := by
  refine loop_spec
    (I := fun q => chunks q.2.session.trace = chunks l.2.session.trace)
    (Q := fun r => chunks r.2.session.trace = chunks l.2.session.trace)
    ?_ rfl h
  intro q step hq hstep
  unfold ppmdFillBody at hstep
  cases hcall : ppmdCall env c fuel q.2 with
  | none =>
      rw [hcall] at hstep
      contradiction
  | some called =>
      have hchunks := (chunks_ppmdCall env c hcall).trans hq
      rw [hcall] at hstep
      dsimp only at hstep
      split at hstep
      · cases hstep
        exact hchunks
      · split at hstep <;> cases hstep <;> exact hchunks

namespace Accounting

theorem ppmdBody_keeps (c : PpmdCodec) (fuel : Nat)
    (l : Summator × PpmdState c)
    (step : Step (Summator × PpmdState c) Outcome)
    (hl : A.Holds l.1 l.2.session) (h : ppmdBody env c fuel l = some step) :
    step.Sat (fun l => A.Holds l.1 l.2.session) A.Ends := by
  unfold ppmdBody at h
  cases hfill : loop (ppmdFillBody env c fuel) fuel ([], l.2) with
  | none =>
      rw [hfill] at h
      contradiction
  | some filled =>
      obtain ⟨out, p⟩ := filled
      have hp : A.Holds l.1 p.session :=
        A.of_chunks hl (chunks_ppmdFill env c hfill)
      rw [hfill] at h
      dsimp only at h
      split at h
      · cases h
        exact A.finish hp
      split at h
      · cases h
        exact A.canceled _
      · rename_i haccepted
        have hdeliver := A.deliver hp (by simpa using haccepted)
        split at h <;> cases h
        · exact A.finish hdeliver
        · exact hdeliver

theorem decompressPpmd_ends (c : PpmdCodec) {file : File} {cache : Bytes}
    {fuel : Nat} {s : Session} {o : Outcome}
    (hs : A.Holds { target := file.crc32Value.toBitVec } s)
    (h : decompressPpmd env c file cache fuel s = some o) : A.Ends o := by
  unfold decompressPpmd at h
  dsimp only at h
  have hchunks := chunks_sectionReadFull env 2 2
    { cacheb := cache, size := file.compressedSize.toInt64.toInt } s
  rcases hread : SectionReader.readFull env 2 2
      { cacheb := cache, size := file.compressedSize.toInt64.toInt } s
    with ⟨ec | buf, sr, s'⟩ <;> rw [hread] at h hchunks <;>
    dsimp only at hchunks
  · cases h
    exact A.fail _ (A.of_chunks hs hchunks)
  dsimp only at h
  have hs' := A.of_chunks hs hchunks
  split at h
  · cases h
    exact A.fail _ hs'
  split at h
  · cases h
    exact A.fail _ hs'
  split at h
  · contradiction
  · rename_i ready p hcall
    have hp : A.Holds { target := file.crc32Value.toBitVec } p.session :=
      A.of_chunks hs' (chunks_ppmdCall env c hcall)
    split at h
    · cases h
      exact A.fail _ hp
    · exact loop_spec (A.ppmdBody_keeps c fuel) hp h

/-! ## All methods -/

theorem decompressData_ends (codecs : Codecs) {file : File}
    (hmethod : file.method ≠ zipStore) {fuel : Nat} {s : Session}
    {o : Outcome} (hs : A.Holds { target := file.crc32Value.toBitVec } s)
    (h : decompressData env codecs file fuel s = some o) : A.Ends o := by
  unfold decompressData at h
  rw [if_neg hmethod] at h
  split at h
  · unfold decompressDeflate at h
    split at h
    · cases h
      exact A.fail _ hs
    · exact A.decompressChunks_ends _ _
        (fun d r => loop_spec (A.blockDrainBody_keeps _ _ _)) hs h
  split at h
  · exact A.decompressDeflate64_ends _ hs h
  split at h
  · unfold decompressZstd at h
    split at h
    · cases h
      exact A.fail _ hs
    · exact A.decompressChunks_ends _ _
        (fun d r => loop_spec (A.zstdDrainBody_keeps _)) hs h
  split at h
  · exact A.decompressLZMA_ends _ hs h
  split at h
  · exact A.decompressXz_ends _ hs h
  split at h
  · unfold decompressBz2 at h
    split at h
    · cases h
      exact A.fail _ hs
    · exact A.decompressChunks_ends _ _
        (fun d r => loop_spec (A.blockDrainBody_keeps _ _ _)) hs h
  split at h
  · exact A.decompressPpmd_ends _ hs h
  split at h
  · unfold decompressBrotli at h
    split at h
    · cases h
      exact A.fail _ hs
    · exact A.decompressChunks_ends _ _
        (fun d r => loop_spec (A.brotliDrainBody_keeps _)) hs h
  · cases h
    exact A.fail _ hs

end Accounting

end Baulk.Zip
