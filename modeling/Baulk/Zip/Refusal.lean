import Baulk.Zip.Cancellation

/-!
# A refused chunk ends the decompression

A writer that refuses a chunk cannot make a method run on.  Run the method once more
with a writer that refuses less: both runs do the same until the first refusal, and
there the first one returns.  So the first run returns if its refusals make any
difference, and also if the other one returns.

Only Deflate64 needs a law for this, since its decoder calls the writer itself:
`inflateBack9` leaves with `Z_BUF_ERROR` when `out` is answered with a nonzero value.
-/

namespace Baulk.Zip

open Archive
open Session (chunks)
open Support (Step Stops loop loop_agrees loop_spec)

/-- The same files and failures, with another writer. -/
def Env.withWriter (env : Env) (writer : List Bytes → Bool) : Env :=
  { env with writer := writer }

/-- As long as the writer of `env` has accepted every chunk, the other one differs from
it only where it refuses. -/
def RefusesLess (env : Env) (writer : List Bytes → Bool) : Prop :=
  ∀ cs chunk, (∀ front, front <+: cs → front ≠ [] → env.writer front = true) →
    env.writer (cs ++ [chunk]) = writer (cs ++ [chunk]) ∨ env.writer (cs ++ [chunk]) = false

theorem refusesLess_true (env : Env) : RefusesLess env fun _ => true := by
  intro cs chunk _
  cases env.writer (cs ++ [chunk]) <;> simp

/-- The decoder returns when a chunk that it hands over is refused. -/
def Deflate64Codec.Heeds (c : Deflate64Codec) : Prop :=
  ∀ state chunk continue', c.request state = .put chunk continue' →
    ∃ ret, c.request (continue' 1) = .finish ret

/-- The outcome of a refusal. -/
def Canceled (o : Outcome) : Prop :=
  o = .canceled o.session

theorem canceled_canceled (s : Session) : Canceled (.canceled s) :=
  rfl

section Methods

variable {env : Env} {writer : List Bytes → Bool}

theorem deliver_agrees (hless : RefusesLess env writer) {s : Session} (hs : Accepted env s)
    (sum : Summator) (chunk : Bytes) :
    deliver env sum chunk s = deliver (env.withWriter writer) sum chunk s ∨
      (deliver env sum chunk s).1 = false := by
  have hwriter := hless (chunks s.trace) chunk hs
  rw [← Session.chunks_log_write] at hwriter
  refine hwriter.imp (fun hsame => ?_) fun hrefused => hrefused
  exact congrArg (fun accepted => (accepted, sum.update chunk, s.log (.write chunk))) hsame

/-! ## Loops over chunks -/

/-- A drain loop that ends with a refusal. -/
def CanceledDrain {σ : Type} (r : Except Outcome (Bool × Drain σ)) : Prop :=
  ∃ o, r = .error o ∧ Canceled o

theorem blockDrainBody_agrees (hless : RefusesLess env writer) (codec : StreamCodec)
    (streamEnd : Int) (fatal : Int → Option ErrorCode) (d : Drain codec.State)
    (hd : Accepted env d.session) :
    blockDrainBody env codec streamEnd fatal d =
        blockDrainBody (env.withWriter writer) codec streamEnd fatal d ∨
      Stops (blockDrainBody env codec streamEnd fatal)
        (blockDrainBody (env.withWriter writer) codec streamEnd fatal) CanceledDrain d := by
  cases hfatal : fatal (codec.run d.state 0 d.input outsize).ret with
  | some ec =>
      left
      simp only [blockDrainBody, hfatal]
  | none =>
      rcases deliver_agrees hless hd d.sum (codec.run d.state 0 d.input outsize).output with
        hsame | hrefused
      · left
        simp only [blockDrainBody, hsame]
      · have hstop : blockDrainBody env codec streamEnd fatal d =
            some (.done (.error (.canceled (deliver env d.sum
              (codec.run d.state 0 d.input outsize).output d.session).2.2))) := by
          simp only [blockDrainBody, hfatal, hrefused]
          rfl
        exact .inr (.now ⟨_, rfl, canceled_canceled _⟩ hstop)

theorem zstdDrainBody_agrees (hless : RefusesLess env writer) (c : ZstdCodec)
    (d : Drain c.codec.State) (hd : Accepted env d.session) :
    zstdDrainBody env c d = zstdDrainBody (env.withWriter writer) c d ∨
      Stops (zstdDrainBody env c) (zstdDrainBody (env.withWriter writer) c) CanceledDrain
        d := by
  by_cases hempty : d.input.length = 0
  · left
    simp only [zstdDrainBody, if_pos hempty]
  by_cases herror : c.isError (c.codec.run d.state 0 d.input zstdOutSize).ret = true
  · left
    simp only [zstdDrainBody, if_pos herror]
  rcases deliver_agrees hless hd d.sum
    (c.codec.run d.state 0 d.input zstdOutSize).output with hsame | hrefused
  · left
    simp only [zstdDrainBody, hsame]
  · have hstop : zstdDrainBody env c d = some (.done (.error (.canceled (deliver env d.sum
        (c.codec.run d.state 0 d.input zstdOutSize).output d.session).2.2))) := by
      simp only [zstdDrainBody, if_neg hempty, if_neg herror, hrefused]
      rfl
    exact .inr (.now ⟨_, rfl, canceled_canceled _⟩ hstop)

theorem brotliDrainBody_agrees (hless : RefusesLess env writer) (c : BrotliCodec)
    (d : Drain c.codec.State) (hd : Accepted env d.session) :
    brotliDrainBody env c d = brotliDrainBody (env.withWriter writer) c d ∨
      Stops (brotliDrainBody env c) (brotliDrainBody (env.withWriter writer) c)
        CanceledDrain d := by
  by_cases hnone : (c.codec.run d.state 0 d.input outsize).output.length = 0
  · left
    simp only [brotliDrainBody, if_pos hnone]
  rcases deliver_agrees hless hd d.sum (c.codec.run d.state 0 d.input outsize).output with
    hsame | hrefused
  · left
    simp only [brotliDrainBody, hsame]
  · have hstop : brotliDrainBody env c d = some (.done (.error (.canceled (deliver env d.sum
        (c.codec.run d.state 0 d.input outsize).output d.session).2.2))) := by
      simp only [brotliDrainBody, if_neg hnone, hrefused]
      rfl
    exact .inr (.now ⟨_, rfl, canceled_canceled _⟩ hstop)

theorem decompressChunks_agrees (size : Nat) {σ : Type} (init : σ)
    {drain drain' : Drain σ → Option (Except Outcome (Bool × Drain σ))}
    (hkeeps : ∀ d r, (cancelAccounting env).Drains d → drain d = some r →
      (cancelAccounting env).Drained r)
    (hdrain : ∀ d : Drain σ, Accepted env d.session →
      drain d = drain' d ∨ ∃ r, CanceledDrain r ∧ drain d = some r)
    (file : File) (buffer : Bytes) (fuel : Nat) {s : Session} (hs : Accepted env s) :
    decompressChunks env size init drain file buffer fuel s =
        decompressChunks (env.withWriter writer) size init drain' file buffer fuel s ∨
      ∃ o, Canceled o ∧ decompressChunks env size init drain file buffer fuel s = some o := by
  refine loop_agrees ((cancelAccounting env).chunkBody_keeps size hkeeps) ?_ fuel hs
  intro l hl
  have hfetch : fetch (env.withWriter writer) size l.input l.session =
    fetch env size l.input l.session := rfl
  have hchunks := chunks_fetch env size l.input l.session
  by_cases hcsize : l.input.csize = 0
  · left
    simp only [chunkBody, if_pos hcsize]
  rcases hread : fetch env size l.input l.session with ⟨ec | ⟨given, input⟩, s'⟩ <;>
    rw [hread] at hchunks
  · left
    simp only [chunkBody, hfetch, hread]
  · have hs' : Accepted env s' := Accepted.of_chunks hl hchunks
    rcases hdrain ⟨l.state, given, l.sum, s'⟩ hs' with hsame | ⟨_, ⟨o, rfl, ho⟩, hrun⟩
    · left
      simp only [chunkBody, hfetch, hread, hsame]
    · have hstop : chunkBody env size drain l = some (.done o) := by
        simp only [chunkBody, if_neg hcsize, hread, hrun]
      exact .inr (.now ho hstop)

/-! ## XZ and LZMA -/

theorem lzmaBody_agrees (hless : RefusesLess env writer) (codec : StreamCodec)
    (l : LzmaLoop codec) (hl : Accepted env l.session) :
    lzmaBody env codec l = lzmaBody (env.withWriter writer) codec l ∨
      Stops (lzmaBody env codec) (lzmaBody (env.withWriter writer) codec) Canceled l := by
  have hrefill : lzmaRefill (env.withWriter writer) l = lzmaRefill env l := rfl
  have hkeeps := ((cancelAccounting env).lzmaRefill_keeps (l := l) hl).2
  cases hread : lzmaRefill env l with
  | error o =>
      left
      simp only [lzmaBody, hrefill, hread]
  | ok l' =>
      rcases deliver_agrees hless (hkeeps l' hread) l'.sum (l'.pending ++
        (codec.run l'.state l'.action l'.input (xzoutsize - l'.pending.length)).output) with
        hsame | hrefused
      · left
        simp only [lzmaBody, hrefill, hread, hsame]
      by_cases hfull : (l'.pending ++ (codec.run l'.state l'.action l'.input
          (xzoutsize - l'.pending.length)).output).length = xzoutsize ∨
        (codec.run l'.state l'.action l'.input (xzoutsize - l'.pending.length)).ret = 1
      · have hstop : lzmaBody env codec l = some (.done (.canceled (deliver env l'.sum
            (l'.pending ++ (codec.run l'.state l'.action l'.input
              (xzoutsize - l'.pending.length)).output) l'.session).2.2)) := by
          simp only [lzmaBody, hread, if_pos hfull, hrefused]
          rfl
        exact .inr (.now (canceled_canceled _) hstop)
      · left
        simp only [lzmaBody, hrefill, hread, if_neg hfull]

/-! ## Deflate64 and PPMd -/

/-- The decoder is about to leave, or the writer has accepted everything. -/
def Leaving (env : Env) {c : Deflate64Codec} (l : Deflate64Loop c) : Prop :=
  (∃ ret, c.request l.state = .finish ret) ∨ Accepted env l.session

theorem deflate64Body_leaving {c : Deflate64Codec} (hc : c.Heeds) (l : Deflate64Loop c)
    (step : Step (Deflate64Loop c) (Int × Deflate64Loop c)) (hl : Leaving env l)
    (h : deflate64Body env c l = some step) : step.Sat (Leaving env) fun _ => True := by
  unfold deflate64Body at h
  cases hrequest : c.request l.state with
  | finish ret =>
      rw [hrequest] at h
      cases h
      trivial
  | get continue' =>
      have hl := hl.resolve_left (by simp [hrequest])
      rw [hrequest] at h
      cases h
      exact .inr (Accepted.of_chunks hl
        (chunks_inflate64Get env l.reader l.session))
  | put chunk continue' =>
      have hl := hl.resolve_left (by simp [hrequest])
      rw [hrequest] at h
      cases h
      cases haccepted : (deliver env l.sum chunk l.session).1 with
      | true => exact .inr ((cancelAccounting env).deliver hl haccepted)
      | false =>
          left
          exact hc _ _ _ hrequest

/-- The decoder sees a refusal and leaves in its next round. -/
theorem deflate64Body_agrees (hless : RefusesLess env writer) {c : Deflate64Codec}
    (hc : c.Heeds) (l : Deflate64Loop c) (hl : Leaving env l) :
    deflate64Body env c l = deflate64Body (env.withWriter writer) c l ∨
      Stops (deflate64Body env c) (deflate64Body (env.withWriter writer) c)
        (fun r => r.2.canceled = true) l := by
  cases hrequest : c.request l.state with
  | finish ret =>
      left
      simp only [deflate64Body, hrequest]
  | get continue' =>
      left
      simp only [deflate64Body, hrequest]
      rfl
  | put chunk continue' =>
      have hl := hl.resolve_left (by simp [hrequest])
      rcases deliver_agrees hless hl l.sum chunk with hsame | hrefused
      · left
        simp only [deflate64Body, hrequest, hsame]
      · obtain ⟨ret, hret⟩ := hc _ _ _ hrequest
        let t : Deflate64Loop c := { l with
          state := continue' 1
          sum := (deliver env l.sum chunk l.session).2.1
          canceled := true
          session := (deliver env l.sum chunk l.session).2.2 }
        have hgoes : deflate64Body env c l = some (.next t) := by
          simp only [deflate64Body, hrequest, hrefused]
          rfl
        obtain ⟨t', hgoes'⟩ : ∃ t', deflate64Body (env.withWriter writer) c l =
            some (.next t') := by
          simp only [deflate64Body, hrequest, Option.some.injEq, Step.next.injEq,
            exists_eq']
        have hstop : deflate64Body env c t = some (.done (ret, t)) := by
          unfold deflate64Body
          rw [show c.request t.state = .finish ret from hret]
        exact .inr (.soon rfl hgoes hgoes' hstop)

theorem decompressDeflate64_agrees (hless : RefusesLess env writer) {c : Deflate64Codec}
    (hc : c.Heeds) (file : File) (buffer : Bytes) (fuel : Nat) {s : Session}
    (hs : Accepted env s) :
    decompressDeflate64 env c file buffer fuel s =
        decompressDeflate64 (env.withWriter writer) c file buffer fuel s ∨
      ∃ o, Canceled o ∧ decompressDeflate64 env c file buffer fuel s = some o := by
  by_cases hinit : c.initRet ≠ 0
  · left
    simp only [decompressDeflate64, if_pos hinit]
  rcases loop_agrees (deflate64Body_leaving hc) (deflate64Body_agrees hless hc) fuel
    (.inr hs : Leaving env ⟨c.init, ⟨buffer, 0, file.compressedSize.toNat⟩,
      { target := file.crc32Value.toBitVec }, false, s⟩) with hsame | ⟨r, hcanceled, hrun⟩
  · left
    simp only [decompressDeflate64, if_neg hinit, hsame]
  · right
    refine ⟨_, canceled_canceled r.2.session, ?_⟩
    simp only [decompressDeflate64, if_neg hinit, hrun, hcanceled, if_true]

theorem ppmdBody_agrees (hless : RefusesLess env writer) (c : PpmdCodec) (fuel : Nat)
    (l : Summator × PpmdState c) (hl : Accepted env l.2.session) :
    ppmdBody env c fuel l = ppmdBody (env.withWriter writer) c fuel l ∨
      Stops (ppmdBody env c fuel) (ppmdBody (env.withWriter writer) c fuel) Canceled l := by
  have hfill : ppmdFillBody (env.withWriter writer) c fuel = ppmdFillBody env c fuel := rfl
  cases hrun : loop (ppmdFillBody env c fuel) fuel ([], l.2) with
  | none =>
      left
      simp only [ppmdBody, hfill, hrun]
  | some filled =>
      have hp : Accepted env filled.2.session :=
        Accepted.of_chunks hl (chunks_ppmdFill env c hrun)
      by_cases hempty : filled.1.length = 0
      · left
        simp only [ppmdBody, hfill, hrun, if_pos hempty]
      rcases deliver_agrees hless hp l.1 filled.1 with hsame | hrefused
      · left
        simp only [ppmdBody, hfill, hrun, hsame]
      · have hstop : ppmdBody env c fuel l = some (.done (.canceled
            (deliver env l.1 filled.1 filled.2.session).2.2)) := by
          simp only [ppmdBody, hrun, if_neg hempty, hrefused]
          rfl
        exact .inr (.now (canceled_canceled _) hstop)

theorem decompressPpmd_agrees (hless : RefusesLess env writer) (c : PpmdCodec) (file : File)
    (cache : Bytes) (fuel : Nat) {s : Session} (hs : Accepted env s) :
    decompressPpmd env c file cache fuel s =
        decompressPpmd (env.withWriter writer) c file cache fuel s ∨
      ∃ o, Canceled o ∧ decompressPpmd env c file cache fuel s = some o := by
  have hcall : ppmdCall (env.withWriter writer) c fuel = ppmdCall env c fuel := rfl
  have hparameters : SectionReader.readFull (env.withWriter writer) 2 2 =
    SectionReader.readFull env 2 2 := rfl
  have hchunks := chunks_sectionReadFull env 2 2
    { cacheb := cache, size := file.compressedSize.toInt64.toInt } s
  unfold decompressPpmd
  dsimp only
  rw [hcall, hparameters]
  rcases hread : SectionReader.readFull env 2 2
      { cacheb := cache, size := file.compressedSize.toInt64.toInt } s
    with ⟨ec | buf, sr, s'⟩ <;> rw [hread] at hchunks
  · exact .inl rfl
  dsimp only at hchunks ⊢
  split
  · exact .inl rfl
  split
  · exact .inl rfl
  split
  · exact .inl rfl
  · rename_i ready p hready
    split
    · exact .inl rfl
    · have hp : Accepted env p.session := Accepted.of_chunks hs
        ((chunks_ppmdCall env c hready).trans hchunks)
      exact loop_agrees ((cancelAccounting env).ppmdBody_keeps c fuel)
        (fun l => ppmdBody_agrees hless c fuel l) fuel hp

/-! ## The whole function -/

/-- Unless the entry is stored, the run with the other writer is the same, or the refusal
ends this one. -/
theorem decompressData_agrees (hless : RefusesLess env writer) {codecs : Codecs}
    (hheeds : codecs.deflate64.Heeds) {file : File} (hmethod : file.method ≠ zipStore)
    (fuel : Nat) {s : Session} (hs : Accepted env s) :
    decompressData env codecs file fuel s =
        decompressData (env.withWriter writer) codecs file fuel s ∨
      ∃ o, Canceled o ∧ decompressData env codecs file fuel s = some o := by
  let A := cancelAccounting env
  unfold decompressData
  rw [if_neg hmethod, if_neg hmethod]
  split
  · unfold decompressDeflate
    split
    · exact .inl rfl
    · exact decompressChunks_agrees insize _
        (fun d r => loop_spec (A.blockDrainBody_keeps _ _ _))
        (fun d => loop_agrees (A.blockDrainBody_keeps _ _ _)
          (blockDrainBody_agrees hless _ _ _) fuel) file _ fuel hs
  split
  · exact decompressDeflate64_agrees hless hheeds file _ fuel hs
  split
  · unfold decompressZstd
    split
    · exact .inl rfl
    · exact decompressChunks_agrees zstdInSize _
        (fun d r => loop_spec (A.zstdDrainBody_keeps _))
        (fun d => loop_agrees (A.zstdDrainBody_keeps _) (zstdDrainBody_agrees hless _) fuel)
        file _ fuel hs
  split
  · unfold decompressLZMA
    split
    · exact .inl rfl
    have hread : s.readFull (env.withWriter writer) 9 = s.readFull env 9 := rfl
    have hchunks := Session.chunks_readFull env 9 s
    rw [hread]
    rcases hresult : s.readFull env 9 with ⟨ec | got, s'⟩ <;> rw [hresult] at hchunks
    · exact .inl rfl
    dsimp only
    split
    · exact .inl rfl
    split
    · exact .inl rfl
    · refine loop_agrees (A.lzmaBody_keeps _) (lzmaBody_agrees hless _) fuel ?_
      exact Accepted.of_chunks hs
        ((Session.chunks_log_properties s' got _).trans hchunks)
  split
  · unfold decompressXz
    split
    · exact .inl rfl
    · exact loop_agrees (A.lzmaBody_keeps _) (lzmaBody_agrees hless _) fuel hs
  split
  · unfold decompressBz2
    split
    · exact .inl rfl
    · exact decompressChunks_agrees insize _
        (fun d r => loop_spec (A.blockDrainBody_keeps _ _ _))
        (fun d => loop_agrees (A.blockDrainBody_keeps _ _ _)
          (blockDrainBody_agrees hless _ _ _) fuel) file _ fuel hs
  split
  · exact decompressPpmd_agrees hless _ file _ fuel hs
  split
  · unfold decompressBrotli
    split
    · exact .inl rfl
    · exact decompressChunks_agrees insize _
        (fun d r => loop_spec (A.brotliDrainBody_keeps _))
        (fun d => loop_agrees (A.brotliDrainBody_keeps _) (brotliDrainBody_agrees hless _)
          fuel) file _ fuel hs
  · exact .inl rfl

theorem decompress_agrees (hless : RefusesLess env writer) {codecs : Codecs}
    (hheeds : codecs.deflate64.Heeds) (baseOffset : UInt64) {file : File}
    (hmethod : file.method ≠ zipStore) (fuel : Nat) :
    decompress env codecs baseOffset file fuel =
        decompress (env.withWriter writer) codecs baseOffset file fuel ∨
      ∃ o, Canceled o ∧ decompress env codecs baseOffset file fuel = some o := by
  have hopen : openEntry (env.withWriter writer) baseOffset file =
    openEntry env baseOffset file := rfl
  unfold decompress
  rw [hopen]
  cases hs : openEntry env baseOffset file with
  | error ec => exact .inl rfl
  | ok s =>
      refine decompressData_agrees hless hheeds hmethod fuel ?_
      intro front hfront hne
      rw [(pos_of_openEntry hs).2.2] at hfront
      exact absurd (List.prefix_nil.mp hfront) hne

theorem storeBody_agrees (l : Nat × Session) :
    storeBody env l = storeBody (env.withWriter fun _ => true) l ∨
      Stops (storeBody env) (storeBody (env.withWriter fun _ => true)) (fun _ => True) l := by
  by_cases hend : l.1 = 0
  · left
    simp only [storeBody, if_pos hend]
  have hread : l.2.readFull (env.withWriter fun _ => true) (min l.1 storeBufferSize) =
    l.2.readFull env (min l.1 storeBufferSize) := rfl
  rcases hresult : l.2.readFull env (min l.1 storeBufferSize) with ⟨ec | got, s⟩
  · left
    simp only [storeBody, hread, hresult]
  · cases haccepted : (s.write env got).1 with
    | true =>
        left
        simp only [storeBody, hread, hresult, haccepted]
        rfl
    | false =>
        have hstop : storeBody env l = some (.done ⟨false, none, (s.write env got).2⟩) := by
          simp only [storeBody, if_neg hend, hresult, haccepted]
          rfl
        exact .inr (.now trivial hstop)

/-- A method that returns when nothing is refused returns for every writer. -/
theorem decompress_returns {codecs : Codecs} (hheeds : codecs.deflate64.Heeds)
    {baseOffset : UInt64} {file : File} {fuel : Nat} {o : Outcome}
    (h : decompress (env.withWriter fun _ => true) codecs baseOffset file fuel = some o) :
    ∃ o', decompress env codecs baseOffset file fuel = some o' := by
  by_cases hmethod : file.method = zipStore
  · have hopen : openEntry (env.withWriter fun _ => true) baseOffset file =
      openEntry env baseOffset file := rfl
    unfold decompress at h ⊢
    rw [hopen] at h
    cases hs : openEntry env baseOffset file with
    | error ec => exact ⟨_, rfl⟩
    | ok s =>
        rw [hs] at h
        simp only [decompressData, if_pos hmethod] at h ⊢
        rcases loop_agrees (I := fun _ => True) (J := fun _ => True)
          (fun _ step _ _ => by cases step <;> trivial)
          (fun l _ => storeBody_agrees l) fuel (s := (file.compressedSize.toNat, s))
          trivial with hsame | ⟨o', -, hrun⟩
        · exact ⟨o, hsame.trans h⟩
        · exact ⟨o', hrun⟩
  · rcases decompress_agrees (refusesLess_true env) hheeds baseOffset hmethod fuel with
      hsame | ⟨o', -, hrun⟩
    · exact ⟨o, hsame.trans h⟩
    · exact ⟨o', hrun⟩

end Methods

/-! ## Extraction -/

namespace Extractor

variable {x : Extractor} {fuel : Nat}

/-- The same extraction with a callback that never returns false. -/
def uncanceled (x : Extractor) : Extractor :=
  { x with host := x.host.uncanceled }

/-- With this fuel, the loop comes to the entry with number `index`; the error code and
the log are the ones at this point. -/
inductive ComesTo (x : Extractor) (fuel : Nat) (ec : ErrorCode) :
    Nat → ErrorCode → Log → Prop where
  | first
      (created :
        (x.host.perform (.createDirectories x.host.destination) ec []).ok = true) :
      ComesTo x fuel ec 0
        (x.host.perform (.createDirectories x.host.destination) ec []).ec
        (x.host.perform (.createDirectories x.host.destination) ec []).log
  | next {index : Nat} {file : File} {ec' : ErrorCode} {log : Log} {r : Extracted}
      (comes : ComesTo x fuel ec index ec' log) (entry : x.files[index]? = some file)
      (extracted : x.extractEntry fuel index file ec' log = some r)
      (goes : r.ok = true ∨
        r.ec.code ≠ ErrorCode.errCanceled ∧ x.host.options.ignoreError = true) :
      ComesTo x fuel ec (index + 1) r.ec r.log

theorem ComesTo.extract_eq {ec ec' : ErrorCode} {index : Nat} {log : Log}
    (h : x.ComesTo fuel ec index ec' log) :
    x.extract fuel ec = x.extractFiles fuel index (x.files.drop index) ec' log := by
  induction h with
  | first created =>
      unfold extract
      dsimp only
      rw [created, List.drop_zero]
      rfl
  | @next index file ec' log r comes entry extracted goes ih =>
      have hdrop : x.files.drop index = file :: x.files.drop (index + 1) := by
        obtain ⟨hlt, hfile⟩ := List.getElem?_eq_some_iff.mp entry
        rw [← hfile]
        exact List.drop_eq_getElem_cons hlt
      rw [ih, hdrop, extractFiles, extracted]
      dsimp only
      rcases goes with hok | ⟨hcode, hignore⟩
      · rw [if_pos hok]
      · cases hok : r.ok with
        | true => rfl
        | false =>
            rw [if_neg (by simp), if_neg (by simp [hcode, hignore])]

theorem ComesTo.extract_canceled {ec ec' : ErrorCode} {index : Nat} {log : Log} {file : File}
    {r : Extracted} (h : x.ComesTo fuel ec index ec' log)
    (entry : x.files[index]? = some file)
    (extracted : x.extractEntry fuel index file ec' log = some r) (hok : r.ok = false)
    (hcode : r.ec.code = ErrorCode.errCanceled) : x.extract fuel ec = some r := by
  have hdrop : x.files.drop index = file :: x.files.drop (index + 1) := by
    obtain ⟨hlt, hfile⟩ := List.getElem?_eq_some_iff.mp entry
    rw [← hfile]
    exact List.drop_eq_getElem_cons hlt
  rw [h.extract_eq, hdrop, extractFiles, extracted]
  dsimp only
  rw [hok, if_neg (by decide), if_pos (.inl hcode)]

theorem writer_eq_true_iff {log : Log} {cs : List Bytes} :
    x.writer log cs = true ↔ x.host.verdict log cs = .accepted := by
  unfold writer
  cases x.host.verdict log cs <;> simp

/-- As long as the writer accepts, the callback has canceled nothing. -/
theorem not_canceled_of_writer {log : Log} {cs : List Bytes}
    (h : ∀ front, front <+: cs → front ≠ [] → x.writer log front = true) :
    ∀ front, front <+: cs → front ≠ [] → x.host.verdict log front ≠ .canceled := by
  intro front hfront hne
  rw [writer_eq_true_iff.mp (h front hfront hne)]
  simp

theorem refusesLess_uncanceled (log : Log) (index : Nat) :
    RefusesLess ⟨x.content, x.fault index, x.writer log⟩ (x.uncanceled.writer log) := by
  intro cs chunk haccepted
  refine (Host.verdict_uncanceled (not_canceled_of_writer haccepted) chunk).imp
    (fun hsame => ?_) fun hcanceled => ?_
  · have hhost : x.uncanceled.host = x.host.uncanceled := rfl
    simp only [writer, hhost, hsame]
  · simp only [writer, hcanceled]

/-- The data of an entry that is not stored: the callback makes no difference, or it
cancels. -/
theorem extractData_agrees (hheeds : x.codecs.deflate64.Heeds) (index : Nat) {file : File}
    (hmethod : file.method ≠ zipStore) (ec : ErrorCode) (log : Log) :
    x.extractData fuel index file ec log = x.uncanceled.extractData fuel index file ec log ∨
      ∃ r, x.extractData fuel index file ec log = some r ∧ r.ok = false ∧
        r.ec.code = ErrorCode.errCanceled := by
  have hcanceled : ∀ {o : Outcome}, Canceled o →
      x.decompress (x.writer log) index file fuel = some o →
      ∃ r, x.extractData fuel index file ec log = some r ∧ r.ok = false ∧
        r.ec.code = ErrorCode.errCanceled := by
    intro o ho hrun
    unfold extractData
    rw [hrun, ho]
    exact ⟨_, rfl, rfl, rfl⟩
  rcases decompress_agrees (refusesLess_uncanceled (x := x) log index) hheeds x.baseOffset
    hmethod fuel with hsame | ⟨o, ho, hrun⟩
  · cases hrun : x.decompress (x.writer log) index file fuel with
    | none =>
        left
        unfold extractData
        rw [hrun, show x.uncanceled.decompress (x.uncanceled.writer log) index file fuel =
          none from hsame.symm.trans hrun]
    | some o =>
        -- Without a refusal both logs are the same.
        by_cases haccepted : ∀ front, front <+: chunks o.session.trace → front ≠ [] →
            x.writer log front = true
        · left
          unfold extractData
          rw [hrun, show x.uncanceled.decompress (x.uncanceled.writer log) index file fuel =
            some o from hsame.symm.trans hrun]
          dsimp only
          rw [show x.uncanceled.host.consumeAll log (chunks o.session.trace) =
            x.host.consumeAll log (chunks o.session.trace) from
              Host.consumeAll_uncanceled (not_canceled_of_writer haccepted)]
        · right
          simp only [not_forall] at haccepted
          obtain ⟨front, hfront, hne, hrefused⟩ := haccepted
          exact hcanceled (decompress_canceled hmethod hrun hfront hne
            (Bool.eq_false_iff.mpr hrefused)) hrun
  · exact .inr (hcanceled ho hrun)

theorem extractEntry_agrees (hheeds : x.codecs.deflate64.Heeds) (index : Nat) {file : File}
    (hmethod : file.method ≠ zipStore) (ec : ErrorCode) (log : Log) :
    x.extractEntry fuel index file ec log =
        x.uncanceled.extractEntry fuel index file ec log ∨
      ∃ r, x.extractEntry fuel index file ec log = some r ∧ r.ok = false ∧
        r.ec.code = ErrorCode.errCanceled := by
  have hhost : x.uncanceled.host = x.host.uncanceled := rfl
  have hperform : x.host.uncanceled.perform = x.host.perform := rfl
  have hsymlink : x.host.uncanceled.symlink = x.host.symlink := rfl
  have hlink : x.uncanceled.resolveLinkName fuel index file ec =
    x.resolveLinkName fuel index file ec := rfl
  have hfilter : x.uncanceled.filter = x.filter := rfl
  have hencode : x.host.uncanceled.encodeToNativePath = x.host.encodeToNativePath := rfl
  have hdestination : x.host.uncanceled.destination = x.host.destination := rfl
  have hoptions : x.host.uncanceled.options = x.host.options := rfl
  unfold extractEntry
  simp only [hhost, hperform, hsymlink, hlink, hfilter, hencode, hdestination, hoptions]
  split
  · exact .inl rfl
  split
  · exact .inl rfl
  split
  · exact .inl rfl
  split
  · split <;> exact .inl rfl
  split
  · exact .inl rfl
  · exact extractData_agrees hheeds index hmethod _ _

/-- Where the callback makes a difference to an entry that is not stored, `Extract`
returns with `ErrCanceled`. -/
theorem ComesTo.extract_of_ne {ec ec' : ErrorCode} {index : Nat} {log : Log} {file : File}
    (h : x.ComesTo fuel ec index ec' log) (hheeds : x.codecs.deflate64.Heeds)
    (entry : x.files[index]? = some file) (hmethod : file.method ≠ zipStore)
    (hne : x.extractEntry fuel index file ec' log ≠
      x.uncanceled.extractEntry fuel index file ec' log) :
    ∃ r, x.extract fuel ec = some r ∧ r.ok = false ∧ r.ec.code = ErrorCode.errCanceled ∧
      Log.current r.log = some index := by
  obtain ⟨r, hentry, hok, hcode⟩ :=
    (extractEntry_agrees hheeds index hmethod ec' log).resolve_left hne
  refine ⟨r, h.extract_canceled entry hentry hok hcode, hok, hcode, ?_⟩
  obtain ⟨added, hlog, hadded⟩ := (extractEntry_heeds hentry).continues
  rw [hlog, List.append_assoc, List.singleton_append]
  exact Log.current_append hadded

theorem extractEntry_returns (hheeds : x.codecs.deflate64.Heeds) {index : Nat} {file : File}
    (hfile : ∃ o, x.decompress (fun _ => true) index file fuel = some o) (ec : ErrorCode)
    (log : Log) : ∃ r, x.extractEntry fuel index file ec log = some r := by
  obtain ⟨o, ho⟩ := hfile
  unfold extractEntry
  dsimp only
  split
  · exact ⟨_, rfl⟩
  split
  · exact ⟨_, rfl⟩
  split
  · exact ⟨_, rfl⟩
  split
  · unfold resolveLinkName
    rw [ho]
    split
    · rename_i hlink
      split at hlink <;> contradiction
    · exact ⟨_, rfl⟩
  split
  · exact ⟨_, rfl⟩
  · have hreturns (writer : List Bytes → Bool) :
        ∃ o', x.decompress writer index file fuel = some o' :=
      decompress_returns hheeds ho
    obtain ⟨o', ho'⟩ := hreturns (x.writer _)
    unfold extractData
    rw [ho']
    exact ⟨_, rfl⟩

/-- If the methods of all entries return when nothing is refused, `Extract` returns for
every callback. -/
theorem extract_returns (hheeds : x.codecs.deflate64.Heeds)
    (hfiles : ∀ index file, x.files[index]? = some file →
      ∃ o, x.decompress (fun _ => true) index file fuel = some o) (ec : ErrorCode) :
    ∃ r, x.extract fuel ec = some r := by
  have hloop : ∀ (files front : List File) (ec : ErrorCode) (log : Log),
      x.files = front ++ files →
      ∃ r, x.extractFiles fuel front.length files ec log = some r := by
    intro files
    induction files with
    | nil => exact fun front ec log _ => ⟨_, rfl⟩
    | cons file files ih =>
        intro front ec log hsplit
        have hfile : x.files[front.length]? = some file := by
          rw [hsplit, List.getElem?_append_right le_rfl, Nat.sub_self,
            List.getElem?_cons_zero]
        obtain ⟨r, hentry⟩ := extractEntry_returns hheeds (hfiles _ _ hfile) ec log
        have hrest : ∃ r', x.extractFiles fuel (front.length + 1) files r.ec r.log =
            some r' := by
          have hnext := ih (front ++ [file]) r.ec r.log (by simp [hsplit])
          rw [List.length_append, List.length_singleton] at hnext
          exact hnext
        unfold extractFiles
        rw [hentry]
        dsimp only
        split
        · exact hrest
        split
        · exact ⟨_, rfl⟩
        · exact hrest
  unfold extract
  dsimp only
  split
  · exact ⟨_, rfl⟩
  · exact hloop x.files [] _ _ rfl

end Extractor

end Baulk.Zip
