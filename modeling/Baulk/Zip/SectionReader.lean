import Baulk.Zip.Decompress
import Mathlib.Algebra.Order.BigOperators.Group.List

/-!
# The section reader on a file with short reads

The PPMd decoder reads its entry through `SectionReader`, which has a buffer, goes past
it for long reads, and is to stop at the end of its section.  `fsread` takes the number
of bytes that it asked for as the number of bytes that it got, and a read past the buffer
does not look at the end of the section.
-/

namespace Baulk.Zip

open Support (Step loop LoopsTo loop_returns loop_spec loop_spec_of_loopsTo)

/-- A file of which any call of `ReadFile` may return fewer bytes than were asked for. -/
structure ShortFile where
  content : FileBytes
  fault : Nat → Option SystemError
  /-- How many bytes a call returns at most. -/
  limit : Nat → Nat

/-- A section reader, the position of its file, and the calls of `ReadFile` so far. -/
structure Section where
  reader : SectionReader
  pos : Nat
  calls : Nat

/-- What a call of `Read` or `ReadFull` has stored, and its error. -/
structure Reply where
  stored : Bytes
  error : Option ErrorCode
  after : Section

namespace Section

/-- What `ReadFile` returns when it is asked for `n` bytes. -/
def answer (f : ShortFile) (n : Nat) (s : Section) : Bytes :=
  (f.content.bytes.drop s.pos).take (min n (f.limit s.calls))

/-- `fsread`.  The number of bytes is cast to 32 bits for the call. -/
def fsread (f : ShortFile) (len : Nat) (s : Section) :
    Except ErrorCode Bytes × Section :=
  match f.fault s.calls with
  | some e => (.error (e.toErrorCode (wide "ReadFile: ")), { s with calls := s.calls + 1 })
  | none =>
      let got := s.answer f (len % 2 ^ 32)
      (.ok got,
        { reader := { s.reader with offset := s.reader.offset + len }
          pos := s.pos + got.length
          calls := s.calls + 1 })

/-- The end of `Read`. -/
def takeBuffered (len : Nat) (s : Section) : Bytes × Section :=
  let r := SectionReader.takeBuffered len s.reader
  (r.1, { s with reader := r.2 })

/-- `Read` into a buffer that holds `dest`. -/
def read (f : ShortFile) (dest : Bytes) (s : Section) : Except ErrorCode Bytes × Section :=
  if dest.length = 0 then (.error (ErrorCode.general (wide "buffer is nil")), s)
  else if s.reader.r = s.reader.w then
    if SectionReader.capacity < dest.length then
      -- A long read goes past the buffer, and past the end of the section.
      match s.fsread f dest.length with
      | (.error ec, s) => (.error ec, s)
      | (.ok got, s) => (.ok (overwrite dest got), s)
    else
      let s := { s with reader := { s.reader with r := 0, w := 0 } }
      let n := s.reader.refill
      if n = 0 then (.error SectionReader.unexpectedEOF, s)
      else
        match s.fsread f n with
        | (.error ec, s) => (.error ec, s)
        | (.ok got, s) =>
            let r := takeBuffered dest.length
              { s with reader := { s.reader with cacheb := overwrite s.reader.cacheb got, w := n } }
            (.ok r.1, r.2)
  else
    let r := takeBuffered dest.length s
    (.ok r.1, r.2)

/-- The variables of `ReadFull`: what is left of the buffer, and what was stored. -/
structure Filling where
  rest : Bytes
  stored : Bytes
  current : Section

/-- One round of the loop of `ReadFull`. -/
def readFullBody (f : ShortFile) (l : Filling) : Option (Step Filling Reply) :=
  if l.rest.length = 0 then some (.done ⟨l.stored, none, l.current⟩)
  else
    match l.current.read f l.rest with
    | (.error ec, s) => some (.done ⟨l.stored, some ec, s⟩)
    | (.ok got, s) => some (.next ⟨l.rest.drop got.length, l.stored ++ got, s⟩)

def readFull (f : ShortFile) (fuel : Nat) (dest : Bytes) (s : Section) : Option Reply :=
  loop (readFullBody f) fuel ⟨dest, [], s⟩

/-- A call of the reader, with what is in the buffer before. -/
inductive Call where
  | read (dest : Bytes)
  | readFull (dest : Bytes)

def Call.dest : Call → Bytes
  | .read dest => dest
  | .readFull dest => dest

def perform (f : ShortFile) (fuel : Nat) : Call → Section → Option Reply
  | .read dest, s =>
      match s.read f dest with
      | (.error ec, s) => some ⟨[], some ec, s⟩
      | (.ok got, s) => some ⟨got, none, s⟩
  | .readFull dest, s => s.readFull f fuel dest

/-- A call, the state before it, and the reply. -/
structure Record where
  call : Call
  before : Section
  reply : Reply

/-- A sequence of calls. -/
def run (f : ShortFile) (fuel : Nat) : List Call → Section → Option (List Record)
  | [], _ => some []
  | call :: calls, s =>
      match perform f fuel call s with
      | none => none
      | some reply => (run f fuel calls reply.after).map (⟨call, s, reply⟩ :: ·)

/-- The constructor, at the position `start` of the file.  The buffer is not
initialised. -/
def openAt (fresh : Nat → UInt8) (size : Int64) (start : Nat) : Section where
  reader :=
    { cacheb := (List.range SectionReader.capacity).map fresh
      size := size.toInt }
  pos := start
  calls := 0

/-! ## What is required of the calls -/

/-- `fsread` of `n` bytes gets them all, unless the call fails. -/
def FullAnswer (f : ShortFile) (n : Nat) (s : Section) : Prop :=
  f.fault s.calls = none → (s.answer f (n % 2 ^ 32)).length = n

/-- What is required when `Read` is called with a buffer of `len` bytes: a read from the
file is answered in full, and one past the buffer stays in the section. -/
def Meets (f : ShortFile) (len : Nat) (s : Section) : Prop :=
  s.reader.r = s.reader.w →
    if SectionReader.capacity < len then
      s.reader.offset + len ≤ s.reader.size ∧ s.FullAnswer f len
    else s.FullAnswer f s.reader.refill

/-- Every call of `Read` meets the requirement, those in `ReadFull` among them. -/
def Record.Meets (f : ShortFile) (record : Record) : Prop :=
  match record.call with
  | .read dest => record.before.Meets f dest.length
  | .readFull dest => ∀ l, LoopsTo (readFullBody f) ⟨dest, [], record.before⟩ l →
      l.current.Meets f l.rest.length

/-! ## The invariant -/

/-- The bytes in the buffer that were not handed out. -/
def buffered (s : Section) : Bytes :=
  (s.reader.cacheb.drop s.reader.r).take (s.reader.w - s.reader.r)

/-- The cursors lie in the buffer. -/
structure Sound (s : Section) : Prop where
  cache : s.reader.cacheb.length = SectionReader.capacity
  w_le : s.reader.w ≤ SectionReader.capacity
  r_le : s.reader.r ≤ s.reader.w

/-- What was delivered and what is in the buffer is what the file holds from the start of
the section up to its position. -/
structure Tracks (f : ShortFile) (start : Nat) (size : Int) (delivered : Bytes) (o : Nat)
    (s : Section) : Prop where
  sound : s.Sound
  size_eq : s.reader.size = size
  offset_eq : s.reader.offset = o
  offset_le : (o : Int) ≤ size
  pos_eq : s.pos = start + o
  delivered_eq : delivered ++ s.buffered = (f.content.bytes.drop start).take o
  length_eq : (delivered ++ s.buffered).length = o

variable {f : ShortFile} {s s' : Section}

theorem Sound.length_buffered (h : s.Sound) :
    s.buffered.length = s.reader.w - s.reader.r := by
  have hcache := h.cache
  have hw := h.w_le
  rw [buffered, List.length_take, List.length_drop]
  omega

theorem takeBuffered_spec (h : s.Sound) (len : Nat) :
    (takeBuffered len s).2.Sound ∧
      (takeBuffered len s).1 ++ (takeBuffered len s).2.buffered = s.buffered ∧
      (takeBuffered len s).1.length = min (s.reader.w - s.reader.r) len := by
  have hcache := h.cache
  have hw := h.w_le
  have hr := h.r_le
  generalize hn : min (s.reader.w - s.reader.r) len = n
  have hfirst : (takeBuffered len s).1 = s.buffered.take n := by
    unfold takeBuffered SectionReader.takeBuffered buffered
    dsimp only
    rw [hn, List.take_take]
    congr 1
    omega
  have hrest : (takeBuffered len s).2.buffered = s.buffered.drop n := by
    unfold takeBuffered SectionReader.takeBuffered buffered
    dsimp only
    rw [hn, List.drop_take, List.drop_drop, Nat.sub_sub]
  have hr' : (takeBuffered len s).2.reader.r = s.reader.r + n := by
    unfold takeBuffered SectionReader.takeBuffered
    dsimp only
    rw [hn]
  refine ⟨⟨hcache, hw, ?_⟩, ?_, ?_⟩
  · rw [hr']
    change s.reader.r + n ≤ s.reader.w
    omega
  · rw [hfirst, hrest, List.take_append_drop]
  · rw [hfirst, List.length_take, h.length_buffered]
    omega

theorem buffered_eq_nil (h : s.reader.r = s.reader.w) : s.buffered = [] := by
  rw [buffered, h, Nat.sub_self, List.take_zero]

theorem fsread_ok {len : Nat} {got : Bytes} (h : s.fsread f len = (.ok got, s')) :
    f.fault s.calls = none ∧ got = s.answer f (len % 2 ^ 32) ∧
      s'.reader = { s.reader with offset := s.reader.offset + len } ∧
      s'.pos = s.pos + got.length := by
  unfold fsread at h
  split at h
  · cases h
  · next hfault =>
    cases h
    exact ⟨hfault, rfl, rfl, rfl⟩

theorem fsread_error {len : Nat} {ec : ErrorCode} (h : s.fsread f len = (.error ec, s')) :
    s'.reader = s.reader ∧ s'.pos = s.pos := by
  unfold fsread at h
  split at h
  · cases h
    exact ⟨rfl, rfl⟩
  · cases h

theorem length_answer_le (f : ShortFile) (n : Nat) (s : Section) :
    (s.answer f (n % 2 ^ 32)).length ≤ n := by
  have hmod := Nat.mod_le n (2 ^ 32)
  rw [answer, List.length_take]
  omega

theorem answer_of_length {n : Nat} (h : (s.answer f (n % 2 ^ 32)).length = n) :
    s.answer f (n % 2 ^ 32) = (f.content.bytes.drop s.pos).take n := by
  unfold answer at h ⊢
  generalize min (n % 2 ^ 32) (f.limit s.calls) = k at h ⊢
  rw [List.length_take] at h
  rcases Nat.le_total k (f.content.bytes.drop s.pos).length with hle | hle
  · rw [Nat.min_eq_left hle] at h
    rw [h]
  · rw [Nat.min_eq_right hle] at h
    rw [List.take_of_length_le hle, List.take_of_length_le h.le]

theorem refill_le_capacity (sr : SectionReader) : sr.refill ≤ SectionReader.capacity :=
  Nat.min_le_left _ _

theorem sound_refilled {n : Nat} {got : Bytes}
    (hcache : s.reader.cacheb.length = SectionReader.capacity) (hr : s.reader.r = 0)
    (hn : n ≤ SectionReader.capacity) (hgot : got.length ≤ n) :
    Sound { s with reader := { s.reader with
      cacheb := overwrite s.reader.cacheb got, w := n } } where
  cache := by
    dsimp only
    rw [overwrite, List.length_append, List.length_drop, hcache]
    omega
  w_le := hn
  r_le := by
    dsimp only
    rw [hr]
    exact Nat.zero_le _

/-- A read leaves the cursors in the buffer and stores something. -/
theorem Sound.read (h : s.Sound) {dest : Bytes} {result : Except ErrorCode Bytes}
    (hread : s.read f dest = (result, s')) :
    s'.Sound ∧ ∀ got, result = .ok got → 0 < got.length ∧ got.length ≤ dest.length := by
  unfold Section.read at hread
  split at hread
  · cases hread
    exact ⟨h, nofun⟩
  next hdest =>
  split at hread
  · next hempty =>
    split at hread
    · split at hread
      · next ec s₁ hfail =>
        cases hread
        obtain ⟨hreader, -⟩ := fsread_error hfail
        exact ⟨⟨hreader ▸ h.cache, hreader ▸ h.w_le, hreader ▸ h.r_le⟩, nofun⟩
      · next got s₁ hgot =>
        cases hread
        obtain ⟨-, hanswer, hreader, -⟩ := fsread_ok hgot
        have hle := length_answer_le f dest.length s
        rw [← hanswer] at hle
        refine ⟨⟨hreader ▸ h.cache, hreader ▸ h.w_le, hreader ▸ h.r_le⟩, ?_⟩
        rintro _ ⟨⟩
        rw [overwrite, List.length_append, List.length_drop]
        omega
    · have hcleared : Sound { s with reader := { s.reader with r := 0, w := 0 } } :=
        ⟨h.cache, Nat.zero_le _, Nat.le_refl _⟩
      dsimp only at hread
      split at hread
      · cases hread
        exact ⟨hcleared, nofun⟩
      next hrefill =>
      split at hread
      · next ec s₁ hfail =>
        cases hread
        obtain ⟨hreader, -⟩ := fsread_error hfail
        exact ⟨⟨hreader ▸ hcleared.cache, hreader ▸ hcleared.w_le, hreader ▸ hcleared.r_le⟩,
          nofun⟩
      · next got s₁ hgot =>
        cases hread
        obtain ⟨-, hanswer, hreader, -⟩ := fsread_ok hgot
        have hle := length_answer_le f (SectionReader.refill { s.reader with r := 0, w := 0 })
          { s with reader := { s.reader with r := 0, w := 0 } }
        rw [← hanswer] at hle
        have hcache : s₁.reader.cacheb.length = SectionReader.capacity := by
          rw [hreader]
          exact h.cache
        have hfilled := sound_refilled hcache (by rw [hreader]) (refill_le_capacity _) hle
        obtain ⟨hsound, -, hlength⟩ := takeBuffered_spec hfilled dest.length
        refine ⟨hsound, ?_⟩
        rintro _ ⟨⟩
        rw [hlength, hreader]
        dsimp only
        omega
  · next hsome =>
    cases hread
    obtain ⟨hsound, -, hlength⟩ := takeBuffered_spec h dest.length
    have hr := h.r_le
    refine ⟨hsound, ?_⟩
    rintro _ ⟨⟩
    rw [hlength]
    omega

/-- What a full read adds to the bytes that were read before. -/
theorem Tracks.fetch {start : Nat} {size : Int} {delivered got : Bytes} {o n : Nat}
    (h : s.Tracks f start size delivered o) (hempty : s.reader.r = s.reader.w)
    (hfull : s.FullAnswer f n) (hread : s.fsread f n = (.ok got, s')) :
    got.length = n ∧ delivered ++ got = (f.content.bytes.drop start).take (o + n) ∧
      (delivered ++ got).length = o + n ∧ s'.pos = start + (o + n) := by
  obtain ⟨hfault, hanswer, -, hpos⟩ := fsread_ok hread
  have hlength : got.length = n := by
    rw [hanswer]
    exact hfull hfault
  have hgot : got = (f.content.bytes.drop s.pos).take n := by
    rw [hanswer]
    exact answer_of_length (hfull hfault)
  have hdelivered := h.delivered_eq
  have hdeliveredLength := h.length_eq
  rw [buffered_eq_nil hempty, List.append_nil] at hdelivered hdeliveredLength
  refine ⟨hlength, ?_, ?_, ?_⟩
  · rw [List.take_add, List.drop_drop, ← h.pos_eq, ← hgot, ← hdelivered]
  · rw [List.length_append, hdeliveredLength, hlength]
  · rw [hpos, h.pos_eq, hlength, Nat.add_assoc]

theorem Tracks.refill_le {start : Nat} {size : Int} {delivered : Bytes} {o : Nat}
    (h : s.Tracks f start size delivered o) (hsize : size < 2 ^ 63) :
    (o : Int) + s.reader.refill ≤ size := by
  have hle := h.offset_le
  have hrest : s.reader.availableBytes % 2 ^ 64 = size - o := by
    rw [SectionReader.availableBytes, h.size_eq, h.offset_eq]
    omega
  rw [SectionReader.refill, hrest]
  omega

/-- A read that meets the requirement delivers the next bytes of the section. -/
theorem Tracks.read {start : Nat} {size : Int} {delivered dest : Bytes} {o : Nat}
    {result : Except ErrorCode Bytes} (h : s.Tracks f start size delivered o)
    (hsize : size < 2 ^ 63) (hmeets : s.Meets f dest.length)
    (hread : s.read f dest = (result, s')) :
    ∃ o', s'.Tracks f start size (delivered ++ (result.toOption.getD [])) o' := by
  have hsound := (h.sound.read hread).1
  unfold Section.read at hread
  split at hread
  · cases hread
    exact ⟨o, (List.append_nil delivered).symm ▸ h⟩
  next hdest =>
  split at hread
  · next hempty =>
    have hrequired := hmeets hempty
    split at hread
    · next hlong =>
      rw [if_pos hlong] at hrequired
      obtain ⟨hroom, hfull⟩ := hrequired
      split at hread
      · next ec s₁ hfail =>
        cases hread
        obtain ⟨hreader, hpos⟩ := fsread_error hfail
        have hsame : s'.buffered = s.buffered := by rw [buffered, buffered, hreader]
        refine ⟨o, hsound, hreader ▸ h.size_eq, hreader ▸ h.offset_eq, h.offset_le,
          hpos.trans h.pos_eq, ?_, ?_⟩
        · rw [hsame]
          exact (List.append_nil delivered).symm ▸ h.delivered_eq
        · rw [hsame]
          exact (List.append_nil delivered).symm ▸ h.length_eq
      · next got s₁ hgot =>
        cases hread
        obtain ⟨hlength, hdelivered, hdeliveredLength, hpos⟩ := h.fetch hempty hfull hgot
        obtain ⟨-, -, hreader, -⟩ := fsread_ok hgot
        have hstored : overwrite dest got = got := by
          rw [overwrite, hlength, List.drop_length, List.append_nil]
        have hnone : s'.buffered = [] := buffered_eq_nil (by rw [hreader]; exact hempty)
        rw [h.size_eq, h.offset_eq] at hroom
        refine ⟨o + dest.length, hsound, hreader ▸ h.size_eq, ?_, by exact_mod_cast hroom, hpos,
          ?_, ?_⟩
        · rw [hreader]
          dsimp only
          rw [h.offset_eq]
          exact (Nat.cast_add o dest.length).symm
        · rw [hnone, List.append_nil]
          dsimp only [Except.toOption, Option.getD_some]
          rw [hstored, hdelivered]
        · rw [hnone, List.append_nil]
          dsimp only [Except.toOption, Option.getD_some]
          rw [hstored, hdeliveredLength]
    · next hshort =>
      rw [if_neg hshort] at hrequired
      have hcleared : Tracks f start size delivered o
          { s with reader := { s.reader with r := 0, w := 0 } } := by
        have hnil := buffered_eq_nil hempty
        have hdelivered := h.delivered_eq
        have hlength := h.length_eq
        rw [hnil] at hdelivered hlength
        exact ⟨⟨h.sound.cache, Nat.zero_le _, Nat.le_refl _⟩, h.size_eq, h.offset_eq,
          h.offset_le, h.pos_eq, hdelivered, hlength⟩
      dsimp only at hread
      split at hread
      · cases hread
        exact ⟨o, (List.append_nil delivered).symm ▸ hcleared⟩
      next hrefill =>
      have hroom := hcleared.refill_le hsize
      split at hread
      · next ec s₁ hfail =>
        cases hread
        obtain ⟨hreader, hpos⟩ := fsread_error hfail
        have hnil : s'.buffered = [] := buffered_eq_nil (by rw [hreader])
        have hdelivered := hcleared.delivered_eq
        have hlength := hcleared.length_eq
        rw [buffered_eq_nil rfl] at hdelivered hlength
        refine ⟨o, hsound, hreader ▸ h.size_eq, hreader ▸ h.offset_eq, h.offset_le,
          hpos.trans h.pos_eq, ?_, ?_⟩
        · rw [hnil]
          exact (List.append_nil delivered).symm ▸ hdelivered
        · rw [hnil]
          exact (List.append_nil delivered).symm ▸ hlength
      · next got s₁ hgot =>
        cases hread
        obtain ⟨hlength, hdelivered, hdeliveredLength, hpos⟩ :=
          hcleared.fetch rfl hrequired hgot
        obtain ⟨-, -, hreader, -⟩ := fsread_ok hgot
        have hcache : s₁.reader.cacheb.length = SectionReader.capacity := by
          rw [hreader]
          exact h.sound.cache
        have hr : s₁.reader.r = 0 := by rw [hreader]
        have hfilled := sound_refilled hcache hr (refill_le_capacity _) hlength.le
        obtain ⟨-, hsplit, -⟩ := takeBuffered_spec hfilled dest.length
        have hall : buffered { s₁ with reader := { s₁.reader with
            cacheb := overwrite s₁.reader.cacheb got
            w := s.reader.refill } } = got := by
          unfold buffered
          dsimp only
          rw [hr, Nat.sub_zero, List.drop_zero, overwrite, ← hlength, List.take_left]
        rw [hall] at hsplit
        refine ⟨o + s.reader.refill, hsound, ?_, ?_, ?_, hpos, ?_, ?_⟩
        · exact (congrArg SectionReader.size hreader).trans h.size_eq
        · refine (congrArg SectionReader.offset hreader).trans ?_
          change s.reader.offset + (s.reader.refill : Int) = ((o + s.reader.refill : Nat) : Int)
          rw [h.offset_eq, Nat.cast_add]
        · exact_mod_cast hroom
        · rw [List.append_assoc]
          exact (congrArg (delivered ++ ·) hsplit).trans hdelivered
        · rw [List.append_assoc]
          exact (congrArg (fun bytes => (delivered ++ bytes).length) hsplit).trans
            hdeliveredLength
  · next hsome =>
    cases hread
    obtain ⟨-, hsplit, -⟩ := takeBuffered_spec h.sound dest.length
    refine ⟨o, hsound, h.size_eq, h.offset_eq, h.offset_le, h.pos_eq, ?_, ?_⟩
    · dsimp only [Except.toOption, Option.getD_some]
      rw [List.append_assoc, hsplit]
      exact h.delivered_eq
    · dsimp only [Except.toOption, Option.getD_some]
      rw [List.append_assoc, hsplit]
      exact h.length_eq

/-! ## Whole runs -/

/-- `ReadFull` ends: every round stores something. -/
theorem readFull_total (f : ShortFile) (h : s.Sound) {dest : Bytes} {fuel : Nat}
    (hfuel : dest.length < fuel) : ∃ reply, s.readFull f fuel dest = some reply := by
  refine loop_returns (B := fun m l => l.rest.length = m ∧ l.current.Sound) ?_ ⟨rfl, h⟩ hfuel
  rintro m l ⟨rfl, hsound⟩
  unfold readFullBody
  split
  · exact ⟨_, rfl, nofun⟩
  · next hrest =>
    rcases hread : l.current.read f l.rest with ⟨ec | got, s₁⟩
    · exact ⟨_, rfl, nofun⟩
    · obtain ⟨hsound₁, hgot⟩ := hsound.read hread
      obtain ⟨hpos, hle⟩ := hgot got rfl
      refine ⟨_, rfl, ?_⟩
      rintro _ ⟨⟩
      refine ⟨_, ?_, rfl, hsound₁⟩
      rw [List.length_drop]
      omega

/-- What a call without an error has stored: some bytes, or as many as the buffer is
long. -/
def Call.Filled (stored : Bytes) : Call → Prop
  | .read dest => 0 < stored.length ∧ stored.length ≤ dest.length
  | .readFull dest => stored.length = dest.length

/-- The call has stored the next bytes, and without an error what it is to store. -/
structure Reply.Fits (f : ShortFile) (start : Nat) (size : Int) (delivered : Bytes)
    (call : Call) (reply : Reply) : Prop where
  tracks : ∃ o, reply.after.Tracks f start size (delivered ++ reply.stored) o
  stored : reply.error = none → call.Filled reply.stored

theorem readFull_fits {start : Nat} {size : Int} {delivered dest : Bytes} {o fuel : Nat}
    {reply : Reply} (h : s.Tracks f start size delivered o) (hsize : size < 2 ^ 63)
    (hmeets : ∀ l, LoopsTo (readFullBody f) ⟨dest, [], s⟩ l → l.current.Meets f l.rest.length)
    (hreply : s.readFull f fuel dest = some reply) :
    Reply.Fits f start size delivered (.readFull dest) reply := by
  refine loop_spec_of_loopsTo
    (I := fun l => (∃ o, l.current.Tracks f start size (delivered ++ l.stored) o) ∧
      l.stored.length + l.rest.length = dest.length) ?_
    ⟨⟨o, (List.append_nil delivered).symm ▸ h⟩, Nat.zero_add _⟩ hreply
  rintro l step hreach ⟨⟨o, htracks⟩, hlength⟩ hstep
  unfold readFullBody at hstep
  split at hstep
  · next hrest =>
    cases hstep
    exact ⟨⟨o, htracks⟩, fun _ => by dsimp only [Call.Filled]; omega⟩
  · rcases hread : l.current.read f l.rest with ⟨ec | got, s₁⟩ <;> rw [hread] at hstep <;>
      cases hstep <;> obtain ⟨o', htracks'⟩ := htracks.read hsize (hmeets l hreach) hread
    · refine ⟨⟨o', ?_⟩, nofun⟩
      exact (List.append_nil (delivered ++ l.stored)) ▸ htracks'
    · obtain ⟨-, hgot⟩ := htracks.sound.read hread
      obtain ⟨-, hle⟩ := hgot got rfl
      refine ⟨⟨o', ?_⟩, ?_⟩
      · rw [← List.append_assoc]
        exact htracks'
      · rw [List.length_append, List.length_drop]
        omega

theorem perform_fits {start : Nat} {size : Int} {delivered : Bytes} {o fuel : Nat}
    {call : Call} {reply : Reply} (h : s.Tracks f start size delivered o)
    (hsize : size < 2 ^ 63) (hmeets : Record.Meets f ⟨call, s, reply⟩)
    (hreply : perform f fuel call s = some reply) :
    Reply.Fits f start size delivered call reply := by
  cases call with
  | readFull dest => exact readFull_fits h hsize hmeets hreply
  | read dest =>
      dsimp only [perform] at hreply
      rcases hread : s.read f dest with ⟨ec | got, s₁⟩ <;> rw [hread] at hreply <;>
        cases hreply
      · exact ⟨h.read hsize hmeets hread, nofun⟩
      · exact ⟨h.read hsize hmeets hread, fun _ => (h.sound.read hread).2 got rfl⟩

def bytes (f : ShortFile) (start : Nat) (size : Int) : Bytes :=
  (f.content.bytes.drop start).take size.toNat

def stored (records : List Record) : Bytes :=
  (records.map fun record => record.reply.stored).flatten

/-- What is expected of a sequence of calls: they store the bytes of the section in order
and no others, without an error `Read` stores something and `ReadFull` fills its buffer, and
when the section was delivered only errors follow. -/
structure Delivers (f : ShortFile) (start : Nat) (size : Int) (records : List Record) :
    Prop where
  in_order : stored records <+: bytes f start size
  filled : ∀ record ∈ records, record.reply.error = none →
    record.call.Filled record.reply.stored
  at_end : ∀ front record back, records = front ++ record :: back →
    stored front = bytes f start size → record.call.dest ≠ [] → record.reply.error ≠ none

theorem Tracks.prefix_bytes {start : Nat} {size : Int} {delivered : Bytes} {o : Nat}
    (h : s.Tracks f start size delivered o) : delivered <+: bytes f start size := by
  have hle := h.offset_le
  refine (List.prefix_append delivered s.buffered).trans ?_
  rw [h.delivered_eq, bytes]
  exact List.take_prefix_take_left (by omega)

/-- The records of a run, and what is delivered after each of them. -/
theorem run_fits {start : Nat} {size : Int} {fuel : Nat} {calls : List Call}
    {records : List Record} (hsize : size < 2 ^ 63) {delivered : Bytes} {o : Nat}
    (h : s.Tracks f start size delivered o) (hrun : run f fuel calls s = some records)
    (hmeets : ∀ record ∈ records, record.Meets f) :
    ∀ front record back, records = front ++ record :: back →
      Reply.Fits f start size (delivered ++ stored front) record.call record.reply := by
  induction calls generalizing s delivered o records with
  | nil =>
      cases hrun
      intro front record back hsplit
      simp at hsplit
  | cons call calls ih =>
      unfold run at hrun
      split at hrun
      · cases hrun
      next reply hreply =>
      obtain ⟨later, hlater, rfl⟩ := Option.map_eq_some_iff.mp hrun
      have hfits := perform_fits h hsize (hmeets _ List.mem_cons_self) hreply
      obtain ⟨o', htracks⟩ := hfits.tracks
      intro front record back hsplit
      cases front with
      | nil =>
          rw [List.nil_append, List.cons.injEq] at hsplit
          obtain ⟨rfl, -⟩ := hsplit
          have hnone : stored [] = [] := rfl
          rw [hnone, List.append_nil]
          exact hfits
      | cons first front =>
          rw [List.cons_append, List.cons.injEq] at hsplit
          obtain ⟨rfl, hsplit⟩ := hsplit
          have hstored : stored (⟨call, s, reply⟩ :: front) = reply.stored ++ stored front := rfl
          rw [hstored, ← List.append_assoc]
          exact ih htracks hlater (fun r hr => hmeets r (List.mem_cons_of_mem _ hr))
            front record back hsplit

theorem readFull_sound {dest : Bytes} {fuel : Nat} {reply : Reply} (h : s.Sound)
    (hreply : s.readFull f fuel dest = some reply) : reply.after.Sound := by
  refine loop_spec (I := fun l => l.current.Sound) (Q := fun reply => reply.after.Sound) ?_ h
    hreply
  intro l step hl hstep
  unfold readFullBody at hstep
  split at hstep
  · cases hstep
    exact hl
  · rcases hread : l.current.read f l.rest with ⟨ec | got, s₁⟩ <;> rw [hread] at hstep <;>
      cases hstep <;> exact (hl.read hread).1

theorem perform_total (f : ShortFile) (h : s.Sound) {call : Call} {fuel : Nat}
    (hfuel : call.dest.length < fuel) :
    ∃ reply, perform f fuel call s = some reply ∧ reply.after.Sound := by
  cases call with
  | read dest =>
      dsimp only [perform]
      rcases hread : s.read f dest with ⟨ec | got, s₁⟩ <;>
        exact ⟨_, rfl, (h.read hread).1⟩
  | readFull dest =>
      obtain ⟨reply, hreply⟩ := readFull_total f h hfuel
      exact ⟨reply, hreply, readFull_sound h hreply⟩

theorem run_total (f : ShortFile) {calls : List Call} {fuel : Nat} (h : s.Sound)
    (hfuel : ∀ call ∈ calls, call.dest.length < fuel) :
    ∃ records, run f fuel calls s = some records := by
  induction calls generalizing s with
  | nil => exact ⟨[], rfl⟩
  | cons call calls ih =>
      obtain ⟨reply, hreply, hsound⟩ := perform_total f h (hfuel call List.mem_cons_self)
      obtain ⟨records, hrecords⟩ :=
        ih hsound fun call hcall => hfuel call (List.mem_cons_of_mem _ hcall)
      rw [run, hreply]
      dsimp only
      rw [hrecords]
      exact ⟨_, rfl⟩

theorem sound_openAt (fresh : Nat → UInt8) (size : Int64) (start : Nat) :
    (openAt fresh size start).Sound where
  cache := by
    dsimp only [openAt]
    rw [List.length_map, List.length_range]
  w_le := Nat.zero_le _
  r_le := Nat.le_refl _

theorem tracks_openAt (f : ShortFile) (fresh : Nat → UInt8) {size : Int64} (start : Nat)
    (hsize : 0 ≤ size.toInt) :
    (openAt fresh size start).Tracks f start size.toInt [] 0 where
  sound := sound_openAt fresh size start
  size_eq := rfl
  offset_eq := rfl
  offset_le := hsize
  pos_eq := rfl
  delivered_eq := rfl
  length_eq := rfl

/-- Every sequence of calls ends.  It delivers the section if no call of `ReadFile` is
short and no read past the buffer leaves the section. -/
theorem run_delivers (f : ShortFile) (fresh : Nat → UInt8) (size : Int64) (start : Nat)
    (calls : List Call) :
    (∃ bound, ∀ fuel, bound < fuel →
      ∃ records, run f fuel calls (openAt fresh size start) = some records) ∧
    ∀ (fuel : Nat) (records : List Record),
      run f fuel calls (openAt fresh size start) = some records → 0 ≤ size.toInt →
      (∀ record ∈ records, record.Meets f) → Delivers f start size.toInt records := by
  refine ⟨⟨(calls.map fun call => call.dest.length).sum, fun fuel hfuel => ?_⟩, ?_⟩
  · refine run_total f (sound_openAt fresh size start) fun call hcall => ?_
    have hmem : call.dest.length ∈ calls.map fun call => call.dest.length :=
      List.mem_map.mpr ⟨call, hcall, rfl⟩
    exact (List.single_le_sum (fun _ _ => Nat.zero_le _) _ hmem).trans_lt hfuel
  · intro fuel records hrun hsize hmeets
    have hfits := run_fits (Int64.toInt_lt size) (tracks_openAt f fresh start hsize) hrun hmeets
    have hbefore : ∀ front record back, records = front ++ record :: back →
        stored front ++ record.reply.stored <+: bytes f start size.toInt := by
      intro front record back hsplit
      obtain ⟨o, htracks⟩ := (hfits front record back hsplit).tracks
      exact htracks.prefix_bytes
    refine ⟨?_, ?_, ?_⟩
    · rcases List.eq_nil_or_concat' records with rfl | ⟨front, record, rfl⟩
      · exact List.nil_prefix
      · have hlast := hbefore front record [] rfl
        have hall : stored (front ++ [record]) = stored front ++ record.reply.stored := by
          unfold stored
          rw [List.map_append, List.flatten_append]
          simp
        rw [hall]
        exact hlast
    · intro record hrecord
      obtain ⟨front, back, hsplit⟩ := List.append_of_mem hrecord
      exact (hfits front record back hsplit).stored
    · intro front record back hsplit hall hdest hnone
      have hlength := (hbefore front record back hsplit).length_le
      have hstored := (hfits front record back hsplit).stored hnone
      have hpos : 0 < record.reply.stored.length := by
        have hdest' := List.length_pos_iff.mpr hdest
        cases hcall : record.call with
        | read dest =>
            rw [hcall] at hstored
            exact hstored.1
        | readFull dest =>
            rw [hcall] at hstored hdest'
            exact hstored ▸ hdest'
      rw [List.length_append, hall] at hlength
      omega

theorem length_hesitant_lt : ([97, 98] : Bytes).length < 2 ^ 63 := by
  decide

/-- Every call of `ReadFile` returns a single byte. -/
def hesitantFile : ShortFile where
  content := ⟨[97, 98], length_hesitant_lt⟩
  fault _ := none
  limit _ := 1

theorem read_hesitantFile (cache : Bytes) :
    ((⟨{ cacheb := cache, size := 2 }, 0, 0⟩ : Section).read hesitantFile [1, 1]).1 =
      .ok ((overwrite cache [97]).take 2) :=
  rfl

/-- The section is the whole file.  What is in the buffer behind the one byte that was
read is delivered in the place of the second byte. -/
theorem run_hesitantFile :
    ∃ records, run hesitantFile 0 [.read [1, 1]] (openAt (fun _ => 0) 2 0) = some records ∧
      stored records = [97, 0] ∧ ¬ Delivers hesitantFile 0 (Int64.toInt 2) records := by
  have hfresh : (List.range SectionReader.capacity).map (fun _ => (0 : UInt8)) =
      List.replicate SectionReader.capacity 0 := by
    rw [List.map_const', List.length_range]
  have hread : ((openAt (fun _ => 0) 2 0).read hesitantFile [1, 1]).1 = .ok [97, 0] := by
    refine (read_hesitantFile _).trans (congrArg Except.ok ?_)
    rw [hfresh, overwrite, List.drop_replicate]
    rfl
  rcases hresult : (openAt (fun _ => 0) 2 0).read hesitantFile [1, 1] with ⟨result, s⟩
  rw [hresult] at hread
  dsimp only at hread
  refine ⟨[⟨.read [1, 1], openAt (fun _ => 0) 2 0, ⟨[97, 0], none, s⟩⟩], ?_, rfl, ?_⟩
  · unfold run perform
    dsimp only
    rw [hresult, hread]
    rfl
  · intro h
    have hstart : ([97, 0] : Bytes) <+: [97, 98] := h.in_order
    exact absurd hstart (by decide)

end Section

end Baulk.Zip
