import Baulk.Zip.DecompressCrc

/-!
# Where the input of a codec comes from

An entry owns the bytes from its data start up to its compressed size, and a
codec should see exactly the bytes that were read for it.  The loops around
`ReadFull` respect both.  Three methods keep their own count: Deflate64 reports
a wrong length for a short last chunk, PPMd ignores how much was read, and LZMA
deducts a prefix which the entry need not have.  The main result says for which
files and entries this shows.
-/

namespace Baulk.Zip

open Archive (Summator)
open Support (Step loop loop_spec)

/-! ## The contract -/

/-- The event concerns only bytes from `start` up to `last`, and presents what
was read. -/
def EventOk (start last : Nat) : IoEvent → Prop
  | .read p bytes => bytes = [] ∨ start ≤ p ∧ p + bytes.length ≤ last
  | .feed read given => given = read
  | .properties read given => given = read.drop 4
  | .write _ => True

/-- All events so far are in order. -/
def Faithful (start last : Nat) (s : Session) : Prop :=
  ∀ event ∈ s.trace, EventOk start last event

/-- Where the data of an entry starts, if its local header is in the file. -/
def dataStart (content : FileBytes) (baseOffset : UInt64) (file : File) :
    Option Nat :=
  let realPosition := file.position + baseOffset
  if 2 ^ 63 ≤ realPosition.toNat ∨
      content.bytes.length < realPosition.toNat + fileHeaderLen then none
  else
    match dataOffset realPosition
        ((content.bytes.drop realPosition.toNat).take fileHeaderLen) with
    | none => none
    | some position =>
        if 2 ^ 63 ≤ position.toNat then none else some position.toNat

/-- Whatever the codecs and the writer do and whichever calls fail, the entry's
own bytes are read and presented. -/
def InputContract (content : FileBytes) (baseOffset : UInt64) (file : File) :
    Prop :=
  ∀ env codecs fuel o start, env.content = content →
    dataStart content baseOffset file = some start →
      decompress env codecs baseOffset file fuel = some o →
        Faithful start (start + file.compressedSize.toNat) o.session

/-- The input callback of Deflate64 is never asked for a last chunk that is
shorter than the others. -/
def Deflate64Safe (available csize : Nat) : Prop :=
  ¬(csize % 2 ^ 32 < available + chunkSize ∧
    (csize % chunkSize ≠ 0 ∨ available < csize % 2 ^ 32))

/-- The first two bytes of PPMd data. -/
def ppmdParameters (content : FileBytes) (start : Nat) : Nat :=
  (content.bytes.getD start 0).toNat +
    256 * (content.bytes.getD (start + 1) 0).toNat

/-- The condition on the file and the entry. -/
def InputSafe (content : FileBytes) (baseOffset : UInt64) (file : File) :
    Prop :=
  ∀ start, dataStart content baseOffset file = some start →
    let available := content.bytes.length - start
    let csize := file.compressedSize.toNat
    (file.method = zipDeflate64 → Deflate64Safe available csize) ∧
      (file.method = zipLZMA → 9 ≤ csize ∨ available ≤ csize) ∧
      (file.method = zipPPMd →
        csize ≤ available ∨
          SectionReader.capacity ≤ available ∧
            ppmdParametersInvalid (ppmdParameters content start) = true)

/-! ## Sessions -/

variable {start last : Nat}

@[simp]
theorem Outcome.fail_session (ec : ErrorCode) (s : Session) :
    (Outcome.fail ec s).session = s := rfl

@[simp]
theorem Outcome.canceled_session (s : Session) :
    (Outcome.canceled s).session = s := rfl

@[simp]
theorem Outcome.finish_session (sum : Summator) (s : Session) :
    (Outcome.finish sum s).session = s := by
  unfold Outcome.finish
  split <;> rfl

theorem Faithful.append {s s' : Session} {events : List IoEvent}
    (h : Faithful start last s) (htrace : s'.trace = s.trace ++ events)
    (hevents : ∀ event ∈ events, EventOk start last event) :
    Faithful start last s' := by
  intro event hevent
  rw [htrace] at hevent
  rcases List.mem_append.mp hevent with hevent | hevent
  · exact h event hevent
  · exact hevents event hevent

theorem Faithful.of_trace_eq {s s' : Session} (h : Faithful start last s)
    (htrace : s'.trace = s.trace) : Faithful start last s' := by
  intro event hevent
  rw [htrace] at hevent
  exact h event hevent

theorem Faithful.log {s : Session} (h : Faithful start last s)
    {event : IoEvent} (hevent : EventOk start last event) :
    Faithful start last (s.log event) :=
  h.append rfl (by simpa using hevent)

theorem eventOk_of_isRead {p : Nat} {bytes : Bytes} {event : IoEvent}
    (hstart : start ≤ p) (hlast : p + bytes.length ≤ last)
    (h : Session.IsRead p bytes event) : EventOk start last event := by
  obtain rfl | ⟨q, rfl⟩ := h
  · exact .inr ⟨hstart, hlast⟩
  · exact .inl rfl

theorem Faithful.readUpTo {s : Session} (h : Faithful start last s)
    (env : Env) {n : Nat} (hstart : start ≤ s.pos)
    (hlast : s.pos + (s.ahead env n).length ≤ last) :
    Faithful start last (s.readUpTo env n).2 := by
  obtain ⟨⟨events, htrace, hevents⟩, -⟩ := Session.readUpTo_spec env n s
  exact h.append htrace fun event hevent =>
    eventOk_of_isRead hstart hlast (hevents event hevent)

theorem Faithful.readFull {s : Session} (h : Faithful start last s)
    (env : Env) {n : Nat} (hstart : start ≤ s.pos)
    (hlast : s.pos + (s.ahead env n).length ≤ last) :
    Faithful start last (s.readFull env n).2 := by
  obtain ⟨⟨events, htrace, hevents⟩, -⟩ := Session.readFull_spec env n s
  exact h.append htrace fun event hevent =>
    eventOk_of_isRead hstart hlast (hevents event hevent)

theorem take_overwrite (buffer got : Bytes) :
    (overwrite buffer got).take got.length = got := by
  simp [overwrite]

/-- The entry's bytes are read in order, up to the end of the entry. -/
structure Reading (start last csize : Nat) (s : Session) : Prop where
  faithful : Faithful start last s
  start_le : start ≤ s.pos
  ends : s.pos + csize = last

theorem Reading.fetch {input : Input} {s : Session}
    (h : Reading start last input.csize s) (env : Env) (size : Nat) :
    match fetch env size input s with
    | (.error _, s') => Faithful start last s'
    | (.ok (_, input'), s') => Reading start last input'.csize s' := by
  have hroom : s.pos + (s.ahead env (min input.csize size)).length ≤ last := by
    have hlength := s.length_ahead env (min input.csize size)
    have hends := h.ends
    omega
  have hread := h.faithful.readFull env h.start_le hroom
  unfold Zip.fetch
  dsimp only
  rcases hfull : s.readFull env (min input.csize size) with ⟨ec | got, s'⟩ <;>
    rw [hfull] at hread
  · exact hread
  · obtain ⟨-, hpos, hlength⟩ := Session.readFull_ok hfull
    have hends := h.ends
    have hstart := h.start_le
    refine ⟨hread.log ?_, ?_, ?_⟩
    · show (overwrite input.buffer got).take (min input.csize size) = got
      rw [← hlength, take_overwrite]
    · show start ≤ s'.pos
      omega
    · show s'.pos + (input.csize - min input.csize size) = last
      omega

/-- Only the writer was called in between. -/
def Writes (s s' : Session) : Prop :=
  s'.pos = s.pos ∧ ∃ chunks : List Bytes,
    s'.trace = s.trace ++ chunks.map .write

theorem Writes.refl (s : Session) : Writes s s :=
  ⟨rfl, [], by simp⟩

theorem Writes.deliver {s s' : Session} (h : Writes s s') (env : Env)
    (sum : Summator) (chunk : Bytes) :
    Writes s (deliver env sum chunk s').2.2 := by
  obtain ⟨hpos, chunks, htrace⟩ := h
  refine ⟨hpos, chunks ++ [chunk], ?_⟩
  show s'.trace ++ [IoEvent.write chunk] = _
  rw [htrace]
  simp

theorem Writes.faithful {s s' : Session} (h : Writes s s')
    (hs : Faithful start last s) : Faithful start last s' := by
  obtain ⟨-, chunks, htrace⟩ := h
  refine hs.append htrace fun event hevent => ?_
  obtain ⟨chunk, -, rfl⟩ := List.mem_map.mp hevent
  trivial

theorem Writes.reading {s s' : Session} {csize : Nat} (h : Writes s s')
    (hs : Reading start last csize s) : Reading start last csize s' :=
  ⟨h.faithful hs.faithful, h.1 ▸ hs.start_le, h.1 ▸ hs.ends⟩

/-! ## Loops over chunks -/

/-- What a drain loop leaves behind it. -/
def DrainWrites (s : Session) {σ : Type} :
    Except Outcome (Bool × Drain σ) → Prop
  | .error o => Writes s o.session
  | .ok (_, d) => Writes s d.session

theorem blockDrainBody_writes (env : Env) (codec : StreamCodec)
    (streamEnd : Int) (fatal : Int → Option ErrorCode) (s : Session)
    (d : Drain codec.State)
    (step : Step (Drain codec.State)
      (Except Outcome (Bool × Drain codec.State)))
    (hd : Writes s d.session)
    (h : blockDrainBody env codec streamEnd fatal d = some step) :
    step.Sat (fun d => Writes s d.session) (DrainWrites s) := by
  unfold blockDrainBody at h
  dsimp only at h
  split at h
  · cases h
    exact hd
  · have hdeliver := hd.deliver env d.sum
      (codec.run d.state 0 d.input outsize).output
    split at h
    · cases h
      exact hdeliver
    · split at h <;> cases h <;> exact hdeliver

theorem zstdDrainBody_writes (env : Env) (c : ZstdCodec) (s : Session)
    (d : Drain c.codec.State)
    (step : Step (Drain c.codec.State)
      (Except Outcome (Bool × Drain c.codec.State)))
    (hd : Writes s d.session) (h : zstdDrainBody env c d = some step) :
    step.Sat (fun d => Writes s d.session) (DrainWrites s) := by
  unfold zstdDrainBody at h
  dsimp only at h
  split at h
  · cases h
    exact hd
  · have hdeliver := hd.deliver env d.sum
      (c.codec.run d.state 0 d.input zstdOutSize).output
    split at h
    · cases h
      exact hd
    · split at h <;> cases h <;> exact hdeliver

theorem brotliDrainBody_writes (env : Env) (c : BrotliCodec) (s : Session)
    (d : Drain c.codec.State)
    (step : Step (Drain c.codec.State)
      (Except Outcome (Bool × Drain c.codec.State)))
    (hd : Writes s d.session) (h : brotliDrainBody env c d = some step) :
    step.Sat (fun d => Writes s d.session) (DrainWrites s) := by
  unfold brotliDrainBody at h
  dsimp only at h
  generalize hr : (if (c.codec.run d.state 0 d.input outsize).output.length = 0
    then (true, d.sum, d.session)
    else Zip.deliver env d.sum (c.codec.run d.state 0 d.input outsize).output
      d.session) = r at h
  have hdeliver : Writes s r.2.2 := by
    rw [← hr]
    split
    · exact hd
    · exact hd.deliver env _ _
  split at h
  · cases h
    exact hdeliver
  split at h
  · cases h
    exact hdeliver
  split at h
  · cases h
    exact hdeliver
  · split at h <;> cases h <;> exact hdeliver

theorem decompressChunks_faithful (env : Env) (size : Nat) {σ : Type}
    (init : σ) {drain : Drain σ → Option (Except Outcome (Bool × Drain σ))}
    (hdrain : ∀ d r, drain d = some r → DrainWrites d.session r)
    {file : File} {buffer : Bytes} {fuel : Nat} {s : Session} {o : Outcome}
    (hs : Reading start last file.compressedSize.toNat s)
    (h : decompressChunks env size init drain file buffer fuel s = some o) :
    Faithful start last o.session := by
  refine loop_spec
    (I := fun l => Reading start last l.input.csize l.session)
    (Q := fun o => Faithful start last o.session) ?_ hs h
  intro l step hl hstep
  unfold chunkBody at hstep
  split at hstep
  · cases hstep
    simpa [Step.Sat] using hl.faithful
  · have hread := hl.fetch env size
    rcases hfetch : fetch env size l.input l.session
      with ⟨ec | ⟨given, input⟩, s'⟩ <;> rw [hfetch] at hstep hread
    · cases hstep
      exact hread
    · dsimp only at hstep hread
      cases hrun : drain ⟨l.state, given, l.sum, s'⟩ with
      | none =>
          rw [hrun] at hstep
          contradiction
      | some r =>
          have hr := hdrain _ r hrun
          rw [hrun] at hstep
          rcases r with o | ⟨ended, d⟩
          · cases hstep
            exact Writes.faithful hr hread.faithful
          · have hd : Writes s' d.session := hr
            dsimp only at hstep
            split at hstep <;> cases hstep
            · simpa [Step.Sat] using hd.faithful hread.faithful
            · exact hd.reading hread

theorem storeBody_reading (env : Env) (l : Nat × Session)
    (step : Step (Nat × Session) Outcome)
    (hl : Reading start last l.1 l.2) (h : storeBody env l = some step) :
    step.Sat (fun l => Reading start last l.1 l.2)
      (fun o => Faithful start last o.session) := by
  unfold storeBody at h
  split at h
  · cases h
    exact hl.faithful
  dsimp only at h
  have hends := hl.ends
  have hstart := hl.start_le
  have hlength := l.2.length_ahead env (min l.1 storeBufferSize)
  have hread := hl.faithful.readFull env (n := min l.1 storeBufferSize)
    hl.start_le (by omega)
  rcases hfull : l.2.readFull env (min l.1 storeBufferSize)
    with ⟨ec | got, s'⟩ <;> rw [hfull] at h hread
  · cases h
    exact hread
  · obtain ⟨-, hpos, -⟩ := Session.readFull_ok hfull
    have hwrite : Faithful start last (s'.write env got).2 :=
      Faithful.log hread trivial
    dsimp only at h
    split at h <;> cases h
    · exact hwrite
    · refine ⟨hwrite, ?_, ?_⟩
      · show start ≤ s'.pos
        omega
      · show s'.pos + (l.1 - min l.1 storeBufferSize) = last
        omega

/-! ## XZ and LZMA -/

theorem lzmaRefill_reading (env : Env) {codec : StreamCodec}
    {l : LzmaLoop codec} (hl : Reading start last l.source.csize l.session) :
    (∀ o, lzmaRefill env l = .error o → Faithful start last o.session) ∧
      ∀ l', lzmaRefill env l = .ok l' →
        Reading start last l'.source.csize l'.session := by
  unfold lzmaRefill
  split
  · have hread := hl.fetch env xzinsize
    rcases hfetch : fetch env xzinsize l.source l.session
      with ⟨ec | ⟨given, source⟩, s⟩ <;> rw [hfetch] at hread
    · refine ⟨fun o ho => ?_, fun l' hl' => by contradiction⟩
      cases ho
      exact hread
    · refine ⟨fun o ho => by contradiction, fun l' hl' => ?_⟩
      cases hl'
      exact hread
  · refine ⟨fun o ho => by contradiction, fun l' hl' => ?_⟩
    cases hl'
    exact hl

theorem lzmaBody_reading (env : Env) (codec : StreamCodec)
    (l : LzmaLoop codec) (step : Step (LzmaLoop codec) Outcome)
    (hl : Reading start last l.source.csize l.session)
    (h : lzmaBody env codec l = some step) :
    step.Sat (fun l => Reading start last l.source.csize l.session)
      (fun o => Faithful start last o.session) := by
  obtain ⟨herror, hok⟩ := lzmaRefill_reading env hl
  unfold lzmaBody at h
  cases hl' : lzmaRefill env l with
  | error o =>
      rw [hl'] at h
      cases h
      exact herror o hl'
  | ok l' =>
      have hrefill := hok l' hl'
      rw [hl'] at h
      dsimp only at h
      generalize codec.run l'.state l'.action l'.input
        (xzoutsize - l'.pending.length) = run at h
      generalize hr : (if (l'.pending ++ run.output).length = xzoutsize ∨
          run.ret = 1
        then deliver env l'.sum (l'.pending ++ run.output) l'.session
        else (true, l'.sum, l'.session)) = r at h
      have hwrites : Writes l'.session r.2.2 := by
        rw [← hr]
        split
        · exact (Writes.refl _).deliver env _ _
        · exact Writes.refl _
      have hfaithful := hwrites.faithful hrefill.faithful
      split at h
      · cases h
        exact hfaithful
      split at h
      · cases h
        simpa [Step.Sat] using hfaithful
      split at h
      · cases h
        exact hfaithful
      · cases h
        exact hwrites.reading hrefill

theorem decompressXz_faithful (env : Env) (c : LzmaCodec) {file : File}
    {buffer : Bytes} {fuel : Nat} {s : Session} {o : Outcome}
    (hs : Reading start last file.compressedSize.toNat s)
    (h : decompressXz env c file buffer fuel s = some o) :
    Faithful start last o.session := by
  unfold decompressXz at h
  split at h
  · cases h
    exact hs.faithful
  · exact loop_spec (lzmaBody_reading env c.codec) hs h

/-- The prefix of LZMA data is the entry's own if the entry is not shorter, or
if the file ends inside the prefix. -/
theorem decompressLZMA_faithful (env : Env) (c : LzmaCodec) {file : File}
    {buffer : Bytes} {fuel : Nat} {s : Session} {o : Outcome}
    (hs : Reading start last file.compressedSize.toNat s)
    (hsafe : 9 ≤ file.compressedSize.toNat ∨
      env.content.bytes.length - s.pos ≤ file.compressedSize.toNat)
    (h : decompressLZMA env c file buffer fuel s = some o) :
    Faithful start last o.session := by
  unfold decompressLZMA at h
  split at h
  · cases h
    exact hs.faithful
  have hends := hs.ends
  have hstart := hs.start_le
  have hlength := s.length_ahead env 9
  have hread := hs.faithful.readFull env (n := 9) hs.start_le (by omega)
  rcases hfull : s.readFull env 9 with ⟨ec | got, s'⟩ <;>
    rw [hfull] at h hread
  · cases h
    exact hread
  obtain ⟨hgot, hpos, hnine⟩ := Session.readFull_ok hfull
  rw [← hgot] at hlength
  have hprops : ((overwrite (List.replicate 16 0) got).drop 4).take 5 =
      got.drop 4 := by
    have hlen : (got.drop 4).length = 5 := by
      rw [List.length_drop, hnine]
    rw [overwrite, List.drop_append_of_le_length (by omega),
      List.take_append_of_le_length (by omega)]
    exact List.take_of_length_le (by omega)
  dsimp only at h
  split at h
  · cases h
    exact hread
  rw [hprops] at h
  have hlogged : Faithful start last
      (s'.log (.properties got (got.drop 4))) := hread.log rfl
  split at h
  · cases h
    exact hlogged
  · have hsize : (file.compressedSize - 9).toNat =
        file.compressedSize.toNat - 9 := by
      have hle : (9 : UInt64) ≤ file.compressedSize := by
        rw [UInt64.le_iff_toNat_le]
        show 9 ≤ _
        omega
      rw [UInt64.toNat_sub_of_le _ _ hle]
      rfl
    refine loop_spec (lzmaBody_reading env c.codec) ?_ h
    refine ⟨hlogged, ?_, ?_⟩
    · show start ≤ s'.pos
      omega
    · show s'.pos + (file.compressedSize - 9).toNat = last
      omega

/-! ## Deflate64 -/

theorem Inflate64Reader.want_eq {r : Inflate64Reader}
    (h : r.offset ≤ r.size % 2 ^ 32) :
    r.want = min chunkSize (r.size % 2 ^ 32 - r.offset) := by
  have hrest : (((r.size : Int) - r.offset) % 2 ^ 32).toNat =
      r.size % 2 ^ 32 - r.offset := by omega
  rw [want, hrest]

/-- State of the input callback when the entry is safe: `x` bytes were read and
`offset` of them reported.  They differ only after a failed call. -/
structure GetSafe (start csize available : Nat) (r : Inflate64Reader)
    (s : Session) : Prop where
  faithful : Faithful start (start + csize) s
  size : r.size = csize
  position : ∃ x, s.pos = start + x ∧
    (available + chunkSize ≤ csize % 2 ^ 32 ∧
        r.offset ≤ x ∧ x ≤ available ∧ (x = r.offset ∨ x = available) ∨
      csize % 2 ^ 32 ≤ available ∧ csize % chunkSize = 0 ∧
        x = r.offset ∧ r.offset % chunkSize = 0 ∧ r.offset ≤ csize % 2 ^ 32)

theorem full_chunk {size offset : Nat} (hsize : size % chunkSize = 0)
    (hoffset : offset % chunkSize = 0) (h : min chunkSize (size - offset) ≠ 0) :
    min chunkSize (size - offset) = chunkSize := by
  unfold chunkSize at *
  omega

theorem mod_chunkSize (csize : Nat) : csize % 2 ^ 32 % chunkSize = csize % chunkSize :=
  Nat.mod_mod_of_dvd csize (by decide)

theorem getSafe_next {csize : Nat} {env : Env} {r : Inflate64Reader}
    {s : Session}
    (h : GetSafe start csize (env.content.bytes.length - start) r s) :
    GetSafe start csize (env.content.bytes.length - start)
      (r.get env s).2.1 (r.get env s).2.2 := by
  obtain ⟨hfaithful, hsize, x, hpos, hcase⟩ := h
  have hwant := Inflate64Reader.want_eq (r := r) (by rw [hsize]; omega)
  rw [hsize] at hwant
  unfold Inflate64Reader.get
  split
  · exact ⟨hfaithful, hsize, x, hpos, hcase⟩
  · rename_i hnonzero
    -- A safe callback is asked for whole chunks only.
    have hfull : r.want = chunkSize := by
      rw [hwant] at hnonzero ⊢
      rcases hcase with ⟨hroom, hle, hx, -⟩ | ⟨-, hwhole, -, hoffset, -⟩
      · omega
      · exact full_chunk ((mod_chunkSize csize).trans hwhole) hoffset hnonzero
    rw [hfull]
    have hlength := s.length_ahead env chunkSize
    have hread := hfaithful.readUpTo env (n := chunkSize)
      (by omega) (by omega)
    obtain ⟨-, hresult⟩ := Session.readUpTo_spec env chunkSize s
    rcases hrun : s.readUpTo env chunkSize with ⟨e | got, s'⟩ <;>
      rw [hrun] at hread hresult
    · dsimp only at hread hresult ⊢
      refine ⟨hread, hsize, ?_⟩
      obtain ⟨herr, -⟩ | ⟨-, hsame | ⟨hmoved, hshort⟩⟩ := hresult
      · contradiction
      · exact ⟨x, by omega, hcase⟩
      · exact ⟨x + (s.ahead env chunkSize).length, by omega, by omega⟩
    · obtain ⟨hgot, hmoved⟩ | ⟨⟨e, herr⟩, -⟩ := hresult
      · cases hgot
        dsimp only at hread hmoved ⊢
        have hlen : chunkSize - (chunkSize - (s.ahead env chunkSize).length) =
            (s.ahead env chunkSize).length := by omega
        rw [hlen]
        refine ⟨hread.log ?_, hsize,
          x + (s.ahead env chunkSize).length, ?_, ?_⟩
        · exact take_overwrite _ _
        · show s'.pos = _
          omega
        · rcases hcase with ⟨hroom, hle, hx, heq⟩ | ⟨hle, hwhole, heq, hoffset, hin⟩
          · refine .inl (And.intro hroom ⟨?_, ?_, ?_⟩)
            · exact Nat.add_le_add_right hle _
            · omega
            · rcases heq with heq | heq
              · exact .inl (congrArg (· + _) heq)
              · right
                omega
          · have hchunk : (s.ahead env chunkSize).length = chunkSize := by omega
            refine .inr (And.intro hle ⟨hwhole, congrArg (· + _) heq, ?_, ?_⟩)
            · change (r.offset + (s.ahead env chunkSize).length) % chunkSize = 0
              rw [hchunk, Nat.add_mod_right, hoffset]
            · change r.offset + (s.ahead env chunkSize).length ≤ _
              omega
      · contradiction

theorem decompressDeflate64_faithful (env : Env) (c : Deflate64Codec)
    {file : File} {buffer : Bytes} {fuel : Nat} {s : Session} {o : Outcome}
    (hs : Faithful start (start + file.compressedSize.toNat) s)
    (hpos : s.pos = start)
    (hsafe : Deflate64Safe (env.content.bytes.length - start)
      file.compressedSize.toNat)
    (h : decompressDeflate64 env c file buffer fuel s = some o) :
    Faithful start (start + file.compressedSize.toNat) o.session := by
  unfold decompressDeflate64 at h
  split at h
  · cases h
    exact hs
  generalize hinit : ({
    state := c.init
    reader := ⟨buffer, 0, file.compressedSize.toNat⟩
    sum := { target := file.crc32Value.toBitVec }
    canceled := false
    session := s } : Deflate64Loop c) = init at h
  have hstart : GetSafe start file.compressedSize.toNat
      (env.content.bytes.length - start) init.reader init.session := by
    rw [← hinit]
    unfold Deflate64Safe at hsafe
    refine ⟨hs, rfl, 0, hpos, ?_⟩
    simp only [chunkSize, Nat.zero_le, Nat.zero_mod, true_or, and_true]
      at hsafe ⊢
    omega
  cases hrun : loop (deflate64Body env c) fuel init with
  | none =>
      rw [hrun] at h
      contradiction
  | some r =>
      have hend : Faithful start (start + file.compressedSize.toNat)
          r.2.session := by
        refine loop_spec (I := fun l =>
          GetSafe start file.compressedSize.toNat
            (env.content.bytes.length - start) l.reader l.session)
          (Q := fun r => Faithful start
            (start + file.compressedSize.toNat) r.2.session)
          ?_ hstart hrun
        intro l step hl hstep
        unfold deflate64Body at hstep
        split at hstep <;> cases hstep
        · exact getSafe_next hl
        · rename_i chunk k _
          have hwrites := (Writes.refl l.session).deliver env l.sum chunk
          obtain ⟨hfaithful, hsize, x, hx, hcase⟩ := hl
          exact ⟨hwrites.faithful hfaithful, hsize, x, hwrites.1.trans hx,
            hcase⟩
        · exact hl.faithful
      rw [hrun] at h
      dsimp only at h
      split at h
      · cases h
        exact hend
      split at h
      · cases h
        exact hend
      · cases h
        simpa using hend

/-! ## PPMd -/

theorem refill_eq (csize : UInt64) {sr : SectionReader} {o : Nat}
    (hsize : sr.size = csize.toInt64.toInt) (hoffset : sr.offset = o)
    (ho : o ≤ csize.toNat) :
    sr.refill = min SectionReader.capacity (csize.toNat - o) := by
  have hint : csize.toInt64.toInt = csize.toBitVec.toInt := rfl
  have hnat : csize.toNat = csize.toBitVec.toNat := rfl
  have hcond := BitVec.toInt_eq_toNat_cond csize.toBitVec
  have hlt := csize.toNat_lt
  have hrest : (sr.availableBytes % 2 ^ 64).toNat = csize.toNat - o := by
    rw [SectionReader.availableBytes, hsize, hoffset, hint, hcond]
    split <;> omega
  rw [SectionReader.refill, hrest]

/-- State of the section reader as long as each refill was complete: `o` bytes
of the entry have been read. -/
structure SectionAt (start : Nat) (csize : UInt64) (o : Nat)
    (sr : SectionReader) (s : Session) : Prop where
  size : sr.size = csize.toInt64.toInt
  offset : sr.offset = o
  le_csize : o ≤ csize.toNat
  pos : s.pos = start + o

/-- The section reader has presented only the entry's own bytes. -/
def SectionSafe (start : Nat) (csize : UInt64) (sr : SectionReader)
    (s : Session) : Prop :=
  Faithful start (start + csize.toNat) s ∧
    ∃ o, SectionAt start csize o sr s

theorem sectionRead_safe {csize : UInt64} {env : Env}
    (hroom : csize.toNat ≤ env.content.bytes.length - start)
    {sr : SectionReader} {s : Session} (len : Nat)
    (h : SectionSafe start csize sr s) :
    SectionSafe start csize (sr.read env len s).2.1
      (sr.read env len s).2.2 := by
  obtain ⟨hfaithful, o, hat⟩ := h
  unfold SectionReader.read
  split
  · dsimp only
    have hrefill : SectionReader.refill { sr with r := 0, w := 0 } =
        min SectionReader.capacity (csize.toNat - o) :=
      refill_eq csize hat.size hat.offset hat.le_csize
    split
    · exact ⟨hfaithful, o, hat.size, hat.offset, hat.le_csize, hat.pos⟩
    rw [hrefill]
    generalize hn : min SectionReader.capacity (csize.toNat - o) = n
    have hlength := s.length_ahead env n
    have hpos := hat.pos
    have hle := hat.le_csize
    rcases hread : s.readFile env n with ⟨e | got, s'⟩
    · obtain ⟨hpos', htrace⟩ := Session.readFile_error hread
      refine ⟨hfaithful.of_trace_eq htrace, o, hat.size, hat.offset, hat.le_csize, ?_⟩
      exact hpos'.trans hpos
    · obtain ⟨hgot, hpos', htrace⟩ := Session.readFile_ok hread
      rw [← hgot] at hlength
      have hfull : got.length = n := by omega
      have hread' : Faithful start (start + csize.toNat) s' := by
        refine hfaithful.append htrace ?_
        simp only [List.mem_singleton, forall_eq]
        exact .inr ⟨by omega, by omega⟩
      refine ⟨hread'.log ?_, o + n, hat.size, ?_, by omega, ?_⟩
      · show (overwrite sr.cacheb got).take n = got
        rw [← hfull, take_overwrite]
      · show sr.offset + n = _
        rw [hat.offset]
        omega
      · show s'.pos = _
        omega
  · exact ⟨hfaithful, o, hat.size, hat.offset, hat.le_csize, hat.pos⟩

theorem sectionReadFull_safe {csize : UInt64} {env : Env}
    (hroom : csize.toNat ≤ env.content.bytes.length - start) (calls : Nat) :
    ∀ {len : Nat} {sr : SectionReader} {s : Session},
      SectionSafe start csize sr s →
        SectionSafe start csize (sr.readFull env calls len s).2.1
          (sr.readFull env calls len s).2.2 := by
  induction calls with
  | zero =>
      intro len sr s h
      exact h
  | succ calls ih =>
      intro len sr s h
      unfold SectionReader.readFull
      split
      · exact h
      · have hfirst := sectionRead_safe hroom len h
        rcases hread : sr.read env len s with ⟨ec | got, sr', s'⟩ <;>
          rw [hread] at hfirst
        · exact hfirst
        · have hrest := @ih (len - got.length) sr' s' hfirst
          dsimp only
          rcases hfull : sr'.readFull env calls (len - got.length) s'
            with ⟨ec | rest, sr'', s''⟩ <;> rw [hfull] at hrest <;>
            exact hrest

theorem ppmdCall_safe {csize : UInt64} {env : Env}
    (hroom : csize.toNat ≤ env.content.bytes.length - start) (c : PpmdCodec)
    {fuel : Nat} {p : PpmdState c} {r : Int × PpmdState c}
    (hp : SectionSafe start csize p.reader p.session)
    (h : ppmdCall env c fuel p = some r) :
    SectionSafe start csize r.2.reader r.2.session := by
  refine loop_spec
    (I := fun p => SectionSafe start csize p.reader p.session)
    (Q := fun r => SectionSafe start csize r.2.reader r.2.session)
    ?_ hp h
  intro p step hp hstep
  unfold ppmdRequestBody at hstep
  split at hstep <;> cases hstep
  · exact sectionReadFull_safe hroom 1 hp
  · exact hp

theorem ppmdFill_safe {csize : UInt64} {env : Env}
    (hroom : csize.toNat ≤ env.content.bytes.length - start) (c : PpmdCodec)
    {calls fuel : Nat} {l r : Bytes × PpmdState c}
    (hl : SectionSafe start csize l.2.reader l.2.session)
    (h : loop (ppmdFillBody env c calls) fuel l = some r) :
    SectionSafe start csize r.2.reader r.2.session := by
  refine loop_spec
    (I := fun l => SectionSafe start csize l.2.reader l.2.session)
    (Q := fun r => SectionSafe start csize r.2.reader r.2.session)
    ?_ hl h
  intro l step hl hstep
  unfold ppmdFillBody at hstep
  split at hstep
  · contradiction
  · rename_i sym p hcall
    have hp := ppmdCall_safe hroom c hl hcall
    dsimp only at hstep
    split at hstep
    · cases hstep
      exact hp
    · split at hstep <;> cases hstep <;> exact hp

theorem ppmdBody_safe {csize : UInt64} {env : Env}
    (hroom : csize.toNat ≤ env.content.bytes.length - start) (c : PpmdCodec)
    (fuel : Nat) (l : Summator × PpmdState c)
    (step : Step (Summator × PpmdState c) Outcome)
    (hl : SectionSafe start csize l.2.reader l.2.session)
    (h : ppmdBody env c fuel l = some step) :
    step.Sat (fun l => SectionSafe start csize l.2.reader l.2.session)
      (fun o => Faithful start (start + csize.toNat) o.session) := by
  unfold ppmdBody at h
  split at h
  · contradiction
  rename_i out p hfill
  obtain ⟨hfaithful, o, hat⟩ := ppmdFill_safe hroom c hl hfill
  have hwrites := (Writes.refl p.session).deliver env l.1 out
  have hdelivered := hwrites.faithful hfaithful
  split at h
  · cases h
    simpa [Step.Sat] using hfaithful
  dsimp only at h
  split at h
  · cases h
    exact hdelivered
  split at h <;> cases h
  · simpa [Step.Sat] using hdelivered
  · exact ⟨hdelivered, o, hat.size, hat.offset, hat.le_csize,
      hwrites.1.trans hat.pos⟩

theorem refill_first {cache : Bytes} {csize : UInt64}
    (hcsize : SectionReader.capacity ≤ csize.toNat) :
    SectionReader.refill { cacheb := cache, size := csize.toInt64.toInt } =
      SectionReader.capacity := by
  have h := @refill_eq csize
    { cacheb := cache, size := csize.toInt64.toInt } 0 rfl rfl
    (Nat.zero_le _)
  omega

/-- The first fill of the buffer when both the entry and the file go on beyond
it. -/
theorem sectionReadFull_first {env : Env} {cache got : Bytes}
    {csize : UInt64} {s s' : Session}
    (hcsize : SectionReader.capacity ≤ csize.toNat)
    (hread : s.readFile env SectionReader.capacity = (.ok got, s'))
    (hgot : got.length = SectionReader.capacity) :
    SectionReader.readFull env 2 2
        { cacheb := cache, size := csize.toInt64.toInt } s =
      (.ok (got.take 2),
        { cacheb := overwrite cache got
          size := csize.toInt64.toInt
          offset := SectionReader.capacity
          r := 2
          w := SectionReader.capacity },
        s'.log (.feed got got)) := by
  have hfed : (overwrite cache got).take SectionReader.capacity = got := by
    rw [← hgot, take_overwrite]
  have htwo : (overwrite cache got).take 2 = got.take 2 := by
    conv_rhs => rw [← hfed]
    rw [List.take_take]
    rfl
  have hcapacity : SectionReader.capacity ≠ 0 := by decide
  have hmin : min SectionReader.capacity 2 = 2 := by decide
  have hlen : (got.take 2).length = 2 := by
    rw [List.length_take, hgot]
    rfl
  have hfirst : SectionReader.read env 2
      { cacheb := cache, size := csize.toInt64.toInt } s =
      (.ok (got.take 2),
        { cacheb := overwrite cache got
          size := csize.toInt64.toInt
          offset := SectionReader.capacity
          r := 2
          w := SectionReader.capacity },
        s'.log (.feed got got)) := by
    simp only [SectionReader.read, if_true, refill_first hcsize,
      if_neg hcapacity, hread, hfed, SectionReader.takeBuffered, Nat.sub_zero,
      hmin, htwo, List.drop_zero, Nat.zero_add, Int.zero_add]
  simp only [SectionReader.readFull, hfirst, hlen]
  simp

theorem parameters_of_ahead (env : Env) (s : Session) :
    (((s.ahead env SectionReader.capacity).take 2).getD 0 0).toNat +
        256 * (((s.ahead env SectionReader.capacity).take 2).getD 1 0).toNat =
      ppmdParameters env.content s.pos := by
  rw [Session.ahead, List.take_take]
  simp [ppmdParameters, List.getD_eq_getElem?_getD, SectionReader.capacity]

theorem decompressPpmd_faithful (env : Env) (c : PpmdCodec) {file : File}
    {cache : Bytes} {fuel : Nat} {s : Session} {o : Outcome}
    (hs : Faithful start (start + file.compressedSize.toNat) s)
    (hpos : s.pos = start)
    (hsafe : file.compressedSize.toNat ≤ env.content.bytes.length - start ∨
      SectionReader.capacity ≤ env.content.bytes.length - start ∧
        ppmdParametersInvalid (ppmdParameters env.content start) = true)
    (h : decompressPpmd env c file cache fuel s = some o) :
    Faithful start (start + file.compressedSize.toNat) o.session := by
  unfold decompressPpmd at h
  dsimp only at h
  by_cases hroom : file.compressedSize.toNat ≤
      env.content.bytes.length - start
  · have hfirst := @sectionReadFull_safe start file.compressedSize env hroom
      2 2 { cacheb := cache, size := file.compressedSize.toInt64.toInt } s
      ⟨hs, 0, rfl, rfl, Nat.zero_le _, hpos⟩
    rcases hread : SectionReader.readFull env 2 2
        { cacheb := cache, size := file.compressedSize.toInt64.toInt } s
      with ⟨ec | buf, sr, s'⟩ <;> rw [hread] at h hfirst
    · cases h
      exact hfirst.1
    dsimp only at h hfirst
    split at h
    · cases h
      exact hfirst.1
    split at h
    · cases h
      exact hfirst.1
    split at h
    · contradiction
    · rename_i ready p hcall
      have hp := ppmdCall_safe hroom c hfirst hcall
      split at h
      · cases h
        exact hp.1
      · exact loop_spec (ppmdBody_safe hroom c fuel) hp h
  · -- The buffer is filled once, and the parameters are rejected.
    obtain ⟨hcapacity, hinvalid⟩ := hsafe.resolve_left hroom
    rcases hread : s.readFile env SectionReader.capacity with ⟨e | got, s'⟩
    · have hcsize : SectionReader.capacity ≤ file.compressedSize.toNat := by
        omega
      have hnonzero : SectionReader.capacity ≠ 0 := by decide
      have htwo : (2 : Nat) ≠ 0 := by decide
      obtain ⟨-, htrace⟩ := Session.readFile_error hread
      simp only [SectionReader.readFull, SectionReader.read, if_true,
        refill_first hcsize, if_neg hnonzero, if_neg htwo, hread] at h
      cases h
      exact hs.of_trace_eq htrace
    · obtain ⟨hgot, hpos', htrace⟩ := Session.readFile_ok hread
      have hlength := s.length_ahead env SectionReader.capacity
      rw [← hgot] at hlength
      rw [sectionReadFull_first (by omega) hread (by omega)] at h
      dsimp only at h
      have hval := parameters_of_ahead env s
      rw [← hgot, hpos] at hval
      rw [hval, if_pos hinvalid] at h
      cases h
      refine Faithful.log (hs.append htrace ?_) rfl
      simp only [List.mem_singleton, forall_eq]
      exact .inr ⟨by omega, by omega⟩

/-! ## All methods -/

theorem dataStart_of_openEntry {env : Env} {baseOffset : UInt64}
    {file : File} {s : Session} (h : openEntry env baseOffset file = .ok s) :
    dataStart env.content baseOffset file = some s.pos ∧ s.trace = [] := by
  unfold openEntry at h
  dsimp only at h
  split at h
  · contradiction
  rename_i s₁ hseek
  obtain ⟨hlt, hpos₁⟩ := seek_ok hseek
  rcases hread : s₁.readFull env fileHeaderLen with ⟨ec | header, s₂⟩ <;>
    rw [hread] at h
  · contradiction
  obtain ⟨hheader, -, hfull⟩ := Session.readFull_ok hread
  rw [hheader, Session.length_ahead, hpos₁] at hfull
  have hpositive : 0 < fileHeaderLen := by decide
  rw [Session.ahead, hpos₁] at hheader
  dsimp only at h
  cases hoffset : dataOffset (file.position + baseOffset) header with
  | none =>
      rw [hoffset] at h
      contradiction
  | some position =>
      rw [hoffset] at h
      dsimp only at h
      split at h
      · contradiction
      rename_i s₃ hseek'
      obtain ⟨hlt', hpos₃⟩ := seek_ok hseek'
      cases h
      refine ⟨?_, rfl⟩
      unfold dataStart
      dsimp only
      rw [if_neg (by omega), ← hheader, hoffset]
      dsimp only
      rw [if_neg (by omega), hpos₃]

/-- On a safe entry every method reads and presents the entry's own bytes. -/
theorem decompressData_faithful (env : Env) (codecs : Codecs) {file : File}
    {fuel : Nat} {s : Session} {o : Outcome} {baseOffset : UInt64}
    (hstart : dataStart env.content baseOffset file = some s.pos)
    (htrace : s.trace = [])
    (hsafe : InputSafe env.content baseOffset file)
    (h : decompressData env codecs file fuel s = some o) :
    Faithful s.pos (s.pos + file.compressedSize.toNat) o.session := by
  obtain ⟨hdeflate64, hlzma, hppmd⟩ := hsafe s.pos hstart
  have hempty : Faithful s.pos (s.pos + file.compressedSize.toNat) s := by
    intro event hevent
    rw [htrace] at hevent
    contradiction
  have hreading : Reading s.pos (s.pos + file.compressedSize.toNat)
      file.compressedSize.toNat s := ⟨hempty, le_refl _, rfl⟩
  unfold decompressData at h
  split at h
  · exact loop_spec (storeBody_reading env) hreading h
  split at h
  · unfold decompressDeflate at h
    split at h
    · cases h
      exact hempty
    · exact decompressChunks_faithful env _ _ (fun d r =>
        loop_spec (blockDrainBody_writes env _ _ _ d.session)
          (Writes.refl _)) hreading h
  split at h
  · rename_i hmethod
    exact decompressDeflate64_faithful env _ hempty rfl
      (hdeflate64 hmethod) h
  split at h
  · unfold decompressZstd at h
    split at h
    · cases h
      exact hempty
    · exact decompressChunks_faithful env _ _ (fun d r =>
        loop_spec (zstdDrainBody_writes env _ d.session)
          (Writes.refl _)) hreading h
  split at h
  · rename_i hmethod
    exact decompressLZMA_faithful env _ hreading (hlzma hmethod) h
  split at h
  · exact decompressXz_faithful env _ hreading h
  split at h
  · unfold decompressBz2 at h
    split at h
    · cases h
      exact hempty
    · exact decompressChunks_faithful env _ _ (fun d r =>
        loop_spec (blockDrainBody_writes env _ _ _ d.session)
          (Writes.refl _)) hreading h
  split at h
  · rename_i hmethod
    exact decompressPpmd_faithful env _ hempty rfl (hppmd hmethod) h
  split at h
  · unfold decompressBrotli at h
    split at h
    · cases h
      exact hempty
    · exact decompressChunks_faithful env _ _ (fun d r =>
        loop_spec (brotliDrainBody_writes env _ d.session)
          (Writes.refl _)) hreading h
  · cases h
    exact hempty

theorem inputContract_of_safe {content : FileBytes} {baseOffset : UInt64}
    {file : File} (hsafe : InputSafe content baseOffset file) :
    InputContract content baseOffset file := by
  intro env codecs fuel o start hcontent hstart h
  subst hcontent
  unfold decompress at h
  split at h
  · cases h
    intro event hevent
    contradiction
  · rename_i s hopen
    obtain ⟨hpos, htrace⟩ := dataStart_of_openEntry hopen
    obtain rfl : s.pos = start := by
      rw [hpos] at hstart
      exact Option.some.inj hstart
    exact decompressData_faithful env codecs hpos htrace hsafe h

end Baulk.Zip
