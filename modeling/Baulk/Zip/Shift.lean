import Baulk.Zip.Reader

/-!
# Decompression behind a stub

A file that starts with a stub holds everything at offsets that are larger by
the length of the stub.  A session on such a file is a session on the file
without the stub, shifted: the same bytes are read at other positions.  Every
method of `Decompress` commutes with this shift.
-/

namespace Baulk.Zip

open Archive (Summator)
open Support (Step loop loop_map)

/-- The second file is the first one behind a stub of `k` bytes; the system and
the writer do the same in both cases. -/
structure Behind (k : Nat) (env env' : Env) : Prop where
  content : ∃ stub : Bytes, stub.length = k ∧
    env'.content.bytes = stub ++ env.content.bytes
  fault : env'.fault = env.fault
  writer : env'.writer = env.writer

theorem Behind.drop {k : Nat} {env env' : Env} (h : Behind k env env')
    (n : Nat) :
    env'.content.bytes.drop (n + k) = env.content.bytes.drop n := by
  obtain ⟨stub, hlength, hbytes⟩ := h.content
  rw [hbytes, List.drop_append, List.drop_eq_nil_of_le (by omega),
    List.nil_append, hlength, Nat.add_sub_cancel]

/-! ## Sessions -/

/-- A read happened `k` bytes further on. -/
def IoEvent.shift (k : Nat) : IoEvent → IoEvent
  | .read start bytes => .read (start + k) bytes
  | .feed got given => .feed got given
  | .properties got given => .properties got given
  | .write chunk => .write chunk

namespace Session

def shift (k : Nat) (s : Session) : Session :=
  ⟨s.pos + k, s.calls, s.trace.map (IoEvent.shift k)⟩

theorem chunks_shift (k : Nat) (trace : List IoEvent) :
    chunks (trace.map (IoEvent.shift k)) = chunks trace := by
  induction trace with
  | nil => rfl
  | cons event trace ih =>
      cases event with
      | read start bytes => exact ih
      | feed got given => exact ih
      | properties got given => exact ih
      | write chunk => exact congrArg (chunk :: ·) ih

theorem shift_log (k : Nat) (s : Session) (event : IoEvent) :
    (s.shift k).log (event.shift k) = (s.log event).shift k := by
  simp [shift, log]

variable {k : Nat} {env env' : Env}

theorem readFile_shift (h : Behind k env env') (n : Nat) (s : Session) :
    (s.shift k).readFile env' n =
      ((s.readFile env n).1, (s.readFile env n).2.shift k) := by
  have hcalls : (s.shift k).calls = s.calls := rfl
  unfold readFile
  rw [h.fault, hcalls]
  cases env.fault s.calls with
  | some e => rfl
  | none =>
      simp only [shift, h.drop, List.map_append, List.map_cons, List.map_nil,
        IoEvent.shift, Nat.add_right_comm]

theorem readUpTo_shift (h : Behind k env env') (n : Nat) (s : Session) :
    (s.shift k).readUpTo env' n =
      ((s.readUpTo env n).1, (s.readUpTo env n).2.shift k) := by
  unfold readUpTo
  rw [readFile_shift h]
  rcases s.readFile env n with ⟨e | got, s₁⟩
  · rfl
  · dsimp only
    split
    · rfl
    · rw [readFile_shift h]
      rcases s₁.readFile env (n - got.length) with ⟨e | rest, s₂⟩ <;> rfl

theorem readFull_shift (h : Behind k env env') (n : Nat) (s : Session) :
    (s.shift k).readFull env' n =
      ((s.readFull env n).1, (s.readFull env n).2.shift k) := by
  unfold readFull
  split
  · rfl
  · rw [readUpTo_shift h]
    rcases s.readUpTo env n with ⟨e | got, s₁⟩
    · rfl
    · dsimp only
      split <;> rfl

theorem write_shift (h : Behind k env env') (chunk : Bytes) (s : Session) :
    (s.shift k).write env' chunk =
      ((s.write env chunk).1, (s.write env chunk).2.shift k) := by
  have hlog : (s.shift k).log (.write chunk) = (s.log (.write chunk)).shift k :=
    shift_log k s (.write chunk)
  simp only [write, h.writer, hlog]
  simp only [shift, chunks_shift]

end Session

/-! ## Outcomes and input -/

def Outcome.shift (k : Nat) (o : Outcome) : Outcome :=
  { o with session := o.session.shift k }

theorem Outcome.finish_shift (k : Nat) (sum : Summator) (s : Session) :
    Outcome.finish sum (s.shift k) = (Outcome.finish sum s).shift k := by
  unfold Outcome.finish
  split <;> rfl

variable {k : Nat} {env env' : Env}

theorem deliver_shift (h : Behind k env env') (sum : Summator) (chunk : Bytes)
    (s : Session) :
    deliver env' sum chunk (s.shift k) =
      ((deliver env sum chunk s).1, (deliver env sum chunk s).2.1,
        (deliver env sum chunk s).2.2.shift k) := by
  simp only [deliver, Session.write_shift h]

theorem fetch_shift (h : Behind k env env') (size : Nat) (input : Input)
    (s : Session) :
    fetch env' size input (s.shift k) =
      ((fetch env size input s).1, (fetch env size input s).2.shift k) := by
  unfold fetch
  simp only [Session.readFull_shift h]
  rcases s.readFull env (min input.csize size) with ⟨ec | got, s₁⟩
  · rfl
  · dsimp only
    rw [← Session.shift_log]
    rfl

/-! ## Stored entries -/

theorem storeBody_shift (h : Behind k env env') (l : Nat × Session) :
    storeBody env' (l.1, l.2.shift k) =
      (storeBody env l).map
        (Step.map (fun l => (l.1, l.2.shift k)) (Outcome.shift k)) := by
  unfold storeBody
  dsimp only
  split
  · rfl
  · rw [Session.readFull_shift h]
    rcases l.2.readFull env (min l.1 storeBufferSize) with ⟨ec | got, s⟩
    · rfl
    · dsimp only
      rw [Session.write_shift h]
      split <;> rfl

theorem decompressStore_shift (h : Behind k env env') (file : File)
    (fuel : Nat) (s : Session) :
    decompressStore env' file fuel (s.shift k) =
      (decompressStore env file fuel s).map (Outcome.shift k) :=
  loop_map (storeBody_shift h) fuel (file.compressedSize.toNat, s)

/-! ## Stream codecs -/

def Drain.shift (k : Nat) {σ : Type} (d : Drain σ) : Drain σ :=
  { d with session := d.session.shift k }

def drainShift (k : Nat) {σ : Type} :
    Except Outcome (Bool × Drain σ) → Except Outcome (Bool × Drain σ)
  | .error o => .error (o.shift k)
  | .ok (ended, d) => .ok (ended, d.shift k)

def ChunkLoop.shift (k : Nat) {σ : Type} (l : ChunkLoop σ) : ChunkLoop σ :=
  { l with session := l.session.shift k }

/-- The chunk loop commutes with the shift if its drain loop does. -/
theorem chunkBody_shift (h : Behind k env env') (size : Nat) {σ : Type}
    {drain drain' : Drain σ → Option (Except Outcome (Bool × Drain σ))}
    (hdrain : ∀ d, drain' (d.shift k) = (drain d).map (drainShift k))
    (l : ChunkLoop σ) :
    chunkBody env' size drain' (l.shift k) =
      (chunkBody env size drain l).map
        (Step.map (ChunkLoop.shift k) (Outcome.shift k)) := by
  unfold chunkBody
  simp only [ChunkLoop.shift, fetch_shift h, Outcome.finish_shift]
  split
  · rfl
  · rcases fetch env size l.input l.session with ⟨ec | ⟨given, input⟩, s⟩
    · rfl
    · dsimp only
      rw [show (⟨l.state, given, l.sum, s.shift k⟩ : Drain σ) =
        Drain.shift k ⟨l.state, given, l.sum, s⟩ from rfl, hdrain]
      rcases drain ⟨l.state, given, l.sum, s⟩ with _ | o | ⟨ended, d⟩
      · rfl
      · rfl
      · dsimp only [Option.map, drainShift]
        split
        · simp only [Drain.shift, Outcome.finish_shift]
          rfl
        · rfl

theorem decompressChunks_shift (h : Behind k env env') (size : Nat) {σ : Type}
    (init : σ)
    {drain drain' : Drain σ → Option (Except Outcome (Bool × Drain σ))}
    (hdrain : ∀ d, drain' (d.shift k) = (drain d).map (drainShift k))
    (file : File) (buffer : Bytes) (fuel : Nat) (s : Session) :
    decompressChunks env' size init drain' file buffer fuel (s.shift k) =
      (decompressChunks env size init drain file buffer fuel s).map
        (Outcome.shift k) :=
  loop_map (chunkBody_shift h size hdrain) fuel
    ⟨⟨file.compressedSize.toNat, buffer⟩, init,
      { target := file.crc32Value.toBitVec }, s⟩

theorem blockDrainBody_shift (h : Behind k env env') (codec : StreamCodec)
    (streamEnd : Int) (fatal : Int → Option ErrorCode)
    (d : Drain codec.State) :
    blockDrainBody env' codec streamEnd fatal (d.shift k) =
      (blockDrainBody env codec streamEnd fatal d).map
        (Step.map (Drain.shift k) (drainShift k)) := by
  unfold blockDrainBody
  simp only [Drain.shift, deliver_shift h]
  split
  · rfl
  · split
    · rfl
    · split <;> rfl

theorem decompressDeflate_shift (h : Behind k env env') (c : DeflateCodec)
    (file : File) (buffer : Bytes) (fuel : Nat) (s : Session) :
    decompressDeflate env' c file buffer fuel (s.shift k) =
      (decompressDeflate env c file buffer fuel s).map (Outcome.shift k) := by
  unfold decompressDeflate
  split
  · rfl
  · exact decompressChunks_shift h insize _
      (loop_map (blockDrainBody_shift h _ _ _) fuel) file buffer fuel s

theorem decompressBz2_shift (h : Behind k env env') (c : Bz2Codec)
    (file : File) (buffer : Bytes) (fuel : Nat) (s : Session) :
    decompressBz2 env' c file buffer fuel (s.shift k) =
      (decompressBz2 env c file buffer fuel s).map (Outcome.shift k) := by
  unfold decompressBz2
  split
  · rfl
  · exact decompressChunks_shift h insize _
      (loop_map (blockDrainBody_shift h _ _ _) fuel) file buffer fuel s

theorem zstdDrainBody_shift (h : Behind k env env') (c : ZstdCodec)
    (d : Drain c.codec.State) :
    zstdDrainBody env' c (d.shift k) =
      (zstdDrainBody env c d).map
        (Step.map (Drain.shift k) (drainShift k)) := by
  unfold zstdDrainBody
  simp only [Drain.shift, deliver_shift h]
  split
  · rfl
  · split
    · rfl
    · split <;> rfl

theorem decompressZstd_shift (h : Behind k env env') (c : ZstdCodec)
    (file : File) (buffer : Bytes) (fuel : Nat) (s : Session) :
    decompressZstd env' c file buffer fuel (s.shift k) =
      (decompressZstd env c file buffer fuel s).map (Outcome.shift k) := by
  unfold decompressZstd
  split
  · rfl
  · exact decompressChunks_shift h zstdInSize _
      (loop_map (zstdDrainBody_shift h c) fuel) file buffer fuel s

theorem brotliDrainBody_shift (h : Behind k env env') (c : BrotliCodec)
    (d : Drain c.codec.State) :
    brotliDrainBody env' c (d.shift k) =
      (brotliDrainBody env c d).map
        (Step.map (Drain.shift k) (drainShift k)) := by
  unfold brotliDrainBody
  simp only [Drain.shift, deliver_shift h]
  have hdeliver : ∀ (b : Prop) [Decidable b] (r : Bool × Summator × Session),
      (if b then (true, d.sum, d.session.shift k)
        else (r.1, r.2.1, r.2.2.shift k)) =
      ((if b then (true, d.sum, d.session) else r).1,
        (if b then (true, d.sum, d.session) else r).2.1,
        (if b then (true, d.sum, d.session) else r).2.2.shift k) := by
    intro b _ r
    split <;> rfl
  rw [hdeliver]
  dsimp only
  repeat' split
  all_goals rfl

theorem decompressBrotli_shift (h : Behind k env env') (c : BrotliCodec)
    (file : File) (buffer : Bytes) (fuel : Nat) (s : Session) :
    decompressBrotli env' c file buffer fuel (s.shift k) =
      (decompressBrotli env c file buffer fuel s).map (Outcome.shift k) := by
  unfold decompressBrotli
  split
  · rfl
  · exact decompressChunks_shift h insize _
      (loop_map (brotliDrainBody_shift h c) fuel) file buffer fuel s

/-! ## XZ and LZMA -/

def LzmaLoop.shift (k : Nat) {codec : StreamCodec} (l : LzmaLoop codec) :
    LzmaLoop codec :=
  { l with session := l.session.shift k }

theorem lzmaRefill_shift (h : Behind k env env') {codec : StreamCodec}
    (l : LzmaLoop codec) :
    lzmaRefill env' (l.shift k) =
      match lzmaRefill env l with
      | .error o => .error (o.shift k)
      | .ok l => .ok (l.shift k) := by
  unfold lzmaRefill
  simp only [LzmaLoop.shift, fetch_shift h]
  split
  · rcases fetch env xzinsize l.source l.session with ⟨ec | ⟨given, i⟩, s⟩ <;>
      rfl
  · rfl

theorem lzmaBody_shift (h : Behind k env env') (codec : StreamCodec)
    (l : LzmaLoop codec) :
    lzmaBody env' codec (l.shift k) =
      (lzmaBody env codec l).map
        (Step.map (LzmaLoop.shift k) (Outcome.shift k)) := by
  unfold lzmaBody
  rw [lzmaRefill_shift h]
  rcases lzmaRefill env l with o | l
  · rfl
  dsimp only [LzmaLoop.shift]
  -- Whether the output buffer is handed over does not depend on the session.
  split
  · simp only [deliver_shift h]
    split
    · rfl
    · split
      · simp only [Outcome.finish_shift]
        rfl
      · split <;> rfl
  · dsimp only [Bool.not_true]
    split
    · rfl
    · split
      · simp only [Outcome.finish_shift]
        rfl
      · split <;> rfl

theorem decompressXz_shift (h : Behind k env env') (c : LzmaCodec)
    (file : File) (buffer : Bytes) (fuel : Nat) (s : Session) :
    decompressXz env' c file buffer fuel (s.shift k) =
      (decompressXz env c file buffer fuel s).map (Outcome.shift k) := by
  unfold decompressXz
  split
  · rfl
  · symm
    exact (loop_map (lzmaBody_shift h c.codec) fuel _).symm

theorem decompressLZMA_shift (h : Behind k env env') (c : LzmaCodec)
    (file : File) (buffer : Bytes) (fuel : Nat) (s : Session) :
    decompressLZMA env' c file buffer fuel (s.shift k) =
      (decompressLZMA env c file buffer fuel s).map (Outcome.shift k) := by
  unfold decompressLZMA
  split
  · rfl
  rw [Session.readFull_shift h]
  rcases s.readFull env 9 with ⟨ec | got, s⟩
  · rfl
  dsimp only
  have hlog : ∀ props, (s.shift k).log (.properties got props) =
      (s.log (.properties got props)).shift k :=
    fun props => Session.shift_log k s (.properties got props)
  split
  · rfl
  · rw [hlog]
    split
    · rfl
    · symm
      exact (loop_map (lzmaBody_shift h c.codec) fuel _).symm

/-! ## Deflate64 -/

theorem Inflate64Reader.get_shift (h : Behind k env env')
    (r : Inflate64Reader) (s : Session) :
    r.get env' (s.shift k) =
      ((r.get env s).1, (r.get env s).2.1, (r.get env s).2.2.shift k) := by
  unfold Inflate64Reader.get
  split
  · rfl
  · rw [Session.readUpTo_shift h]
    rcases s.readUpTo env r.want with ⟨e | got, s⟩
    · rfl
    · dsimp only
      rw [← Session.shift_log]
      rfl

def Deflate64Loop.shift (k : Nat) {c : Deflate64Codec} (l : Deflate64Loop c) :
    Deflate64Loop c :=
  { l with session := l.session.shift k }

theorem deflate64Body_shift (h : Behind k env env') (c : Deflate64Codec)
    (l : Deflate64Loop c) :
    deflate64Body env' c (l.shift k) =
      (deflate64Body env c l).map
        (Step.map (Deflate64Loop.shift k)
          (fun r => (r.1, r.2.shift k))) := by
  unfold deflate64Body
  simp only [Deflate64Loop.shift, Inflate64Reader.get_shift h,
    deliver_shift h]
  split <;> rfl

theorem decompressDeflate64_shift (h : Behind k env env') (c : Deflate64Codec)
    (file : File) (buffer : Bytes) (fuel : Nat) (s : Session) :
    decompressDeflate64 env' c file buffer fuel (s.shift k) =
      (decompressDeflate64 env c file buffer fuel s).map
        (Outcome.shift k) := by
  unfold decompressDeflate64
  split
  · rfl
  let l : Deflate64Loop c :=
    { state := c.init
      reader := ⟨buffer, 0, file.compressedSize.toNat⟩
      sum := { target := file.crc32Value.toBitVec }
      canceled := false
      session := s }
  have hloop := loop_map (deflate64Body_shift h c) fuel l
  dsimp only [l, Deflate64Loop.shift] at hloop
  rw [hloop]
  rcases loop (deflate64Body env c) fuel _ with _ | ⟨ret, l⟩
  · rfl
  · simp only [Option.map, Outcome.finish_shift]
    split
    · rfl
    · split <;> rfl

/-! ## PPMd -/

theorem SectionReader.read_shift (h : Behind k env env') (len : Nat)
    (sr : SectionReader) (s : Session) :
    sr.read env' len (s.shift k) =
      ((sr.read env len s).1, (sr.read env len s).2.1,
        (sr.read env len s).2.2.shift k) := by
  unfold SectionReader.read
  split
  · dsimp only
    split
    · rfl
    · rw [Session.readFile_shift h]
      rcases s.readFile env _ with ⟨e | got, s⟩
      · rfl
      · dsimp only
        rw [← Session.shift_log]
        rfl
  · rfl

theorem SectionReader.readFull_shift (h : Behind k env env') (calls len : Nat)
    (sr : SectionReader) (s : Session) :
    SectionReader.readFull env' calls len sr (s.shift k) =
      ((SectionReader.readFull env calls len sr s).1,
        (SectionReader.readFull env calls len sr s).2.1,
        (SectionReader.readFull env calls len sr s).2.2.shift k) := by
  induction calls generalizing len sr s with
  | zero => rfl
  | succ calls ih =>
      unfold SectionReader.readFull
      split
      · rfl
      · rw [SectionReader.read_shift h]
        rcases sr.read env len s with ⟨ec | got, sr, s⟩
        · rfl
        · dsimp only
          rw [ih]
          rcases SectionReader.readFull env calls (len - got.length) sr s with
            ⟨ec | rest, sr, s⟩ <;> rfl

def PpmdState.shift (k : Nat) {c : PpmdCodec} (p : PpmdState c) :
    PpmdState c :=
  { p with session := p.session.shift k }

theorem ppmdCall_shift (h : Behind k env env') (c : PpmdCodec) (fuel : Nat)
    (p : PpmdState c) :
    ppmdCall env' c fuel (p.shift k) =
      (ppmdCall env c fuel p).map (fun r => (r.1, r.2.shift k)) := by
  refine loop_map ?_ fuel p
  intro p
  unfold ppmdRequestBody
  simp only [PpmdState.shift, SectionReader.readFull_shift h]
  split <;> rfl

theorem ppmdFillBody_shift (h : Behind k env env') (c : PpmdCodec)
    (fuel : Nat) (l : Bytes × PpmdState c) :
    ppmdFillBody env' c fuel (l.1, l.2.shift k) =
      (ppmdFillBody env c fuel l).map
        (Step.map (fun l => (l.1, l.2.shift k))
          (fun l => (l.1, l.2.shift k))) := by
  unfold ppmdFillBody
  dsimp only
  rw [ppmdCall_shift h]
  rcases ppmdCall env c fuel l.2 with _ | ⟨sym, p⟩
  · rfl
  · dsimp only [Option.map]
    split
    · rfl
    · split <;> rfl

theorem ppmdBody_shift (h : Behind k env env') (c : PpmdCodec) (fuel : Nat)
    (l : Summator × PpmdState c) :
    ppmdBody env' c fuel (l.1, l.2.shift k) =
      (ppmdBody env c fuel l).map
        (Step.map (fun l => (l.1, l.2.shift k)) (Outcome.shift k)) := by
  unfold ppmdBody
  have hfill := loop_map (ppmdFillBody_shift h c fuel) fuel ([], l.2)
  dsimp only at hfill ⊢
  rw [hfill]
  rcases loop (ppmdFillBody env c fuel) fuel ([], l.2) with _ | ⟨out, p⟩
  · rfl
  · simp only [Option.map, PpmdState.shift, deliver_shift h,
      Outcome.finish_shift]
    split
    · rfl
    · split
      · rfl
      · split <;> rfl

theorem decompressPpmd_shift (h : Behind k env env') (c : PpmdCodec)
    (file : File) (cache : Bytes) (fuel : Nat) (s : Session) :
    decompressPpmd env' c file cache fuel (s.shift k) =
      (decompressPpmd env c file cache fuel s).map (Outcome.shift k) := by
  unfold decompressPpmd
  dsimp only
  rw [SectionReader.readFull_shift h]
  rcases SectionReader.readFull env 2 2 _ s with ⟨ec | buf, sr, s⟩
  · rfl
  dsimp only
  split
  · rfl
  split
  · rfl
  have hcall := fun state => ppmdCall_shift h c fuel ⟨state, sr, s⟩
  dsimp only [PpmdState.shift] at hcall
  rw [hcall]
  rcases ppmdCall env c fuel _ with _ | ⟨ready, p⟩
  · rfl
  · dsimp only [Option.map]
    split
    · rfl
    · exact loop_map (ppmdBody_shift h c fuel) fuel (_, p)

/-! ## The whole function -/

theorem ite_eq_map_ite {α β : Type*} {c : Prop} [Decidable c] {f : α → β} {x y : Option α}
    {x' y' : Option β} (hx : x' = x.map f) (hy : y' = y.map f) :
    (if c then x' else y') = (if c then x else y).map f := by
  split
  · exact hx
  · exact hy

theorem decompressData_shift (h : Behind k env env') (codecs : Codecs)
    (file : File) (fuel : Nat) (s : Session) :
    decompressData env' codecs file fuel (s.shift k) =
      (decompressData env codecs file fuel s).map (Outcome.shift k) := by
  unfold decompressData
  refine ite_eq_map_ite (decompressStore_shift h file fuel s) ?_
  refine ite_eq_map_ite (decompressDeflate_shift h _ file _ fuel s) ?_
  refine ite_eq_map_ite (decompressDeflate64_shift h _ file _ fuel s) ?_
  refine ite_eq_map_ite (decompressZstd_shift h _ file _ fuel s) ?_
  refine ite_eq_map_ite (decompressLZMA_shift h _ file _ fuel s) ?_
  refine ite_eq_map_ite (decompressXz_shift h _ file _ fuel s) ?_
  refine ite_eq_map_ite (decompressBz2_shift h _ file _ fuel s) ?_
  refine ite_eq_map_ite (decompressPpmd_shift h _ file _ fuel s) ?_
  exact ite_eq_map_ite (decompressBrotli_shift h _ file _ fuel s) rfl

/-- A seek to an offset that is larger by `k`, and negative only if the other
one is. -/
theorem seek_shift (h : Behind k env env') {offset offset' : UInt64}
    (hoffset : offset'.toNat = offset.toNat + k)
    (hsign : 2 ^ 63 ≤ offset'.toNat ↔ 2 ^ 63 ≤ offset.toNat) {s s' : Session}
    (hcalls : s'.calls = s.calls)
    (htrace : s'.trace = s.trace.map (IoEvent.shift k)) :
    seek env' offset' s' = (seek env offset s).map (Session.shift k) := by
  unfold seek
  rw [h.fault, hcalls]
  cases env.fault s.calls with
  | some e => rfl
  | none =>
      dsimp only
      by_cases hneg : 2 ^ 63 ≤ offset.toNat
      · rw [if_pos hneg, if_pos (hsign.mpr hneg)]
        rfl
      · rw [if_neg hneg, if_neg (mt hsign.mp hneg), hoffset, htrace]
        rfl

/-- The local header of an entry is found behind the stub, or in neither
case. -/
theorem openEntry_shift (h : Behind k env env')
    (hroom : env'.content.bytes.length + 2 ^ 17 ≤ 2 ^ 63)
    {baseOffset baseOffset' : UInt64} {file : File}
    (hposition : (file.position + baseOffset').toNat =
      (file.position + baseOffset).toNat + k)
    (hsign : 2 ^ 63 ≤ (file.position + baseOffset').toNat ↔
      2 ^ 63 ≤ (file.position + baseOffset).toNat) :
    openEntry env' baseOffset' file =
      (openEntry env baseOffset file).map (Session.shift k) := by
  unfold openEntry
  generalize file.position + baseOffset = real at *
  generalize file.position + baseOffset' = real' at *
  dsimp only
  rw [seek_shift h (s := ⟨0, 0, []⟩) hposition hsign rfl rfl]
  rcases hseek : seek env real ⟨0, 0, []⟩ with ec | s
  · rfl
  dsimp only [Except.map]
  rw [Session.readFull_shift h]
  rcases hread : s.readFull env fileHeaderLen with ⟨ec | header, s₁⟩
  · rfl
  dsimp only
  obtain ⟨hheader, -, hlength⟩ := Session.readFull_ok hread
  obtain ⟨-, hpos⟩ := seek_ok hseek
  have hend : real.toNat + fileHeaderLen ≤ env.content.bytes.length := by
    rw [hheader, Session.length_ahead, hpos, fileHeaderLen] at hlength
    rw [fileHeaderLen]
    omega
  have hstub : env'.content.bytes.length = k + env.content.bytes.length := by
    obtain ⟨stub, hstub, hbytes⟩ := h.content
    rw [hbytes, List.length_append, hstub]
  cases hdata : dataOffset real header with
  | none =>
      rw [dataOffset_eq_none_iff.mpr (dataOffset_eq_none_iff.mp hdata)]
  | some position =>
      cases hdata' : dataOffset real' header with
      | none =>
          rw [dataOffset_eq_none_iff.mpr (dataOffset_eq_none_iff.mp hdata')]
            at hdata
          contradiction
      | some position' =>
          have hname := leValue_take_two_lt (header.drop 26)
          have hextra := leValue_take_two_lt (header.drop 28)
          have hvalue := dataOffset_toNat hdata (by omega)
          have hvalue' := dataOffset_toNat hdata' (by omega)
          rw [fileHeaderLen] at *
          have hfurther : position'.toNat = position.toNat + k := by omega
          have hseek' : seek env' position' (s₁.shift k) =
              (seek env position s₁).map (Session.shift k) :=
            seek_shift h hfurther (by omega) rfl rfl
          dsimp only
          rw [hseek']
          cases seek env position s₁ <;> rfl

theorem Outcome.result_shift (k : Nat) (o : Outcome) :
    (o.shift k).result = o.result := by
  simp only [Outcome.result, Outcome.shift, Session.shift,
    Session.chunks_shift]

theorem decompress_shift (h : Behind k env env')
    (hroom : env'.content.bytes.length + 2 ^ 17 ≤ 2 ^ 63)
    {baseOffset baseOffset' : UInt64} {file : File}
    (hposition : (file.position + baseOffset').toNat =
      (file.position + baseOffset).toNat + k)
    (hsign : 2 ^ 63 ≤ (file.position + baseOffset').toNat ↔
      2 ^ 63 ≤ (file.position + baseOffset).toNat)
    (codecs : Codecs) (fuel : Nat) :
    (decompress env' codecs baseOffset' file fuel).map Outcome.result =
      (decompress env codecs baseOffset file fuel).map Outcome.result := by
  unfold decompress
  rw [openEntry_shift h hroom hposition hsign]
  cases openEntry env baseOffset file with
  | error ec => rfl
  | ok s =>
      dsimp only [Except.map]
      rw [decompressData_shift h, Option.map_map]
      congr 1
      funext o
      exact Outcome.result_shift k o

end Baulk.Zip
