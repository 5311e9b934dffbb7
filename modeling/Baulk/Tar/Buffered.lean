import Baulk.Tar.Cursor

/-!
# Decompressing readers

The readers for compressed streams keep the output of their decoder in a buffer
and share three functions around it: `Read`, `Discard` and `WriteTo` call
`decompress` when the buffer is used up, and take what they need from it.  If
`decompress` delivers the bytes of a stream in order, then so does the reader.
-/

namespace Baulk.Tar

open Support (Step loop loop_spec loop_returns)

/-- The function `decompress` of a reader: it puts new output into the buffer,
or fails. -/
structure Decompressor where
  State : Type
  decompress : State → Option (Except Failure Bytes × State)

/-- A reader with what is left in its buffer `out`. -/
structure Buffered (dec : Decompressor) where
  out : Bytes := []
  state : dec.State

namespace Decompressor

variable (dec : Decompressor)

/-- `if (out.pos() == out.size())`, the beginning of all three functions. -/
def refill (b : Buffered dec) : Option (Except Failure Unit × Buffered dec) :=
  if b.out.isEmpty then
    match dec.decompress b.state with
    | none => none
    | some (.error e, s) => some (.error e, { b with state := s })
    | some (.ok out, s) => some (.ok (), ⟨out, s⟩)
  else some (.ok (), b)

def read (len : Nat) (b : Buffered dec) :
    Option (Except Failure Bytes × Buffered dec) :=
  match dec.refill b with
  | none => none
  | some (.error e, b) => some (.error e, b)
  | some (.ok (), b) =>
      some (.ok (b.out.take len), { b with out := b.out.drop len })

/-- One round of `while (len > 0)` in `Discard`. -/
def discardBody (l : Int × Buffered dec) :
    Option (Step (Int × Buffered dec)
      (Except Failure Unit × Buffered dec)) :=
  if l.1 ≤ 0 then some (.done (.ok (), l.2))
  else
    match dec.refill l.2 with
    | none => none
    | some (.error e, b) => some (.done (.error e, b))
    | some (.ok (), b) =>
        let minsize := min l.1.toNat b.out.length
        some (.next (l.1 - minsize, { b with out := b.out.drop minsize }))

def discard (fuel : Nat) (len : Int) (b : Buffered dec) :
    Option (Except Failure Unit × Buffered dec) :=
  loop dec.discardBody fuel (len, b)

/-- State of `while (filesize > 0)` in `WriteTo`. -/
structure WriteLoop where
  filesize : Int
  extracted : Int := 0
  chunks : List Bytes := []
  buffer : Buffered dec

variable {dec}

/-- A chunk of `minsize` bytes is handed to the writer; `filesize` is what is
wanted behind it. -/
def writeChunk (w : Writer) (l : WriteLoop dec) (filesize : Int)
    (b : Buffered dec) (minsize : Nat) :
    Step (WriteLoop dec) (WriteResult × Buffered dec) :=
  let l : WriteLoop dec :=
    { filesize := filesize
      extracted := l.extracted + minsize
      chunks := l.chunks ++ [b.out.take minsize]
      buffer := { b with out := b.out.drop minsize } }
  match w l.chunks with
  | .accept => .next l
  | .refuse e => .done (⟨.error e, l.chunks, l.extracted⟩, l.buffer)

variable (dec)

/-- One round of `while (filesize > 0)`. -/
def writeBody (w : Writer) (l : WriteLoop dec) :
    Option (Step (WriteLoop dec) (WriteResult × Buffered dec)) :=
  if l.filesize ≤ 0 then
    some (.done (⟨.ok (), l.chunks, l.extracted⟩, l.buffer))
  else
    match dec.refill l.buffer with
    | none => none
    | some (.error e, b) =>
        some (.done (⟨.error e, l.chunks, l.extracted⟩, b))
    | some (.ok (), b) =>
        let minsize := min l.filesize.toNat b.out.length
        some (writeChunk w l (l.filesize - minsize) b minsize)

def writeTo (fuel : Nat) (w : Writer) (filesize : Int) (b : Buffered dec) :
    Option (WriteResult × Buffered dec) :=
  loop (dec.writeBody w) fuel { filesize := filesize, buffer := b }

/-- The reader around `decompress`. -/
def reader (fuel : Nat) : ExtractReader where
  State := Buffered dec
  read := dec.read
  discard := dec.discard fuel
  writeTo := dec.writeTo fuel

end Decompressor

/-! ## Delivering a stream -/

variable {dec : Decompressor} {D : Bytes}

/-- `decompress` delivers the bytes of `D` in order. -/
structure Delivers (dec : Decompressor) (D : Bytes) where
  /-- The output that is still to come. -/
  Ahead : dec.State → Bytes → Prop
  /-- Nothing but a failure can follow. -/
  Spent : dec.State → Prop
  ok : ∀ {s s' rest out}, Ahead s rest →
    dec.decompress s = some (.ok out, s') →
    out <+: rest ∧ Ahead s' (rest.drop out.length) ∧ (out = [] → Spent s')
  returns : ∀ {s rest}, Ahead s rest → ∃ r, dec.decompress s = some r
  spent : ∀ {s s' out}, Spent s → dec.decompress s ≠ some (.ok out, s')

namespace Delivers

variable (delivers : Delivers dec D)

/-- The reader is at position `p` of the stream. -/
def At (b : Buffered dec) (p : Nat) : Prop :=
  ∃ rest, delivers.Ahead b.state rest ∧ b.out ++ rest <:+ D ∧
    p + (b.out ++ rest).length = D.length

/-- At position `p`, `decompress` has failed. -/
def FailsAt (p : Nat) (e : Failure) (b : Buffered dec) : Prop :=
  ∃ s rest, delivers.Ahead s rest ∧ rest <:+ D ∧ p + rest.length = D.length ∧
    dec.decompress s = some (.error e, b.state) ∧ b.out = []

variable {delivers} {b b' : Buffered dec} {p : Nat}

theorem At.out_eq (h : delivers.At b p) : b.out = segment D p b.out.length := by
  obtain ⟨rest, -, ⟨front, hD⟩, hlength⟩ := h
  have hfront : front.length = p := by
    have heq := congrArg List.length hD
    rw [List.length_append] at heq
    omega
  rw [segment, ← hD, ← hfront, List.drop_left, List.take_left]

theorem At.drop (h : delivers.At b p) {n : Nat} (hn : n ≤ b.out.length) :
    delivers.At { b with out := b.out.drop n } (p + n) := by
  obtain ⟨rest, hahead, hsuffix, hlength⟩ := h
  refine ⟨rest, hahead, ?_, ?_⟩
  · refine List.IsSuffix.trans ?_ hsuffix
    rw [← List.drop_append_of_le_length hn]
    exact List.drop_suffix _ _
  · rw [List.length_append] at hlength ⊢
    rw [List.length_drop]
    omega

theorem At.take_eq (h : delivers.At b p) {n : Nat} (hn : n ≤ b.out.length) :
    b.out.take n = segment D p n := by
  rw [h.out_eq, segment, List.take_take, min_eq_left hn, segment]

theorem At.refill_ok (h : delivers.At b p)
    (hrefill : dec.refill b = some (.ok (), b')) :
    delivers.At b' p ∧ (b'.out = [] → delivers.Spent b'.state) := by
  unfold Decompressor.refill at hrefill
  split at hrefill
  · rename_i hempty
    rw [List.isEmpty_iff] at hempty
    split at hrefill <;> cases hrefill
    rename_i out s hdecompress
    obtain ⟨rest, hahead, hsuffix, hlength⟩ := h
    obtain ⟨hbegins, hahead', hspent⟩ := delivers.ok hahead hdecompress
    have hrest : out ++ rest.drop out.length = rest := by
      obtain ⟨tail, rfl⟩ := hbegins
      rw [List.drop_left]
    rw [hempty, List.nil_append] at hsuffix hlength
    refine ⟨⟨_, hahead', ?_, ?_⟩, hspent⟩ <;> dsimp only <;> rw [hrest]
    · exact hsuffix
    · exact hlength
  · rename_i hempty
    cases hrefill
    refine ⟨h, ?_⟩
    rintro hnil
    simp [hnil] at hempty

theorem At.refill_error (h : delivers.At b p) {e : Failure}
    (hrefill : dec.refill b = some (.error e, b')) :
    delivers.FailsAt p e b' := by
  unfold Decompressor.refill at hrefill
  split at hrefill
  · rename_i hempty
    rw [List.isEmpty_iff] at hempty
    split at hrefill <;> cases hrefill
    rename_i s hdecompress
    obtain ⟨rest, hahead, hsuffix, hlength⟩ := h
    rw [hempty, List.nil_append] at hsuffix hlength
    exact ⟨_, rest, hahead, hsuffix, hlength, hdecompress, hempty⟩
  · cases hrefill

theorem At.refill_returns (h : delivers.At b p) :
    ∃ r, dec.refill b = some r := by
  obtain ⟨rest, hahead, -, -⟩ := h
  obtain ⟨⟨out, s⟩, hr⟩ := delivers.returns hahead
  unfold Decompressor.refill
  split
  · rw [hr]
    cases out with
    | error e => exact ⟨_, rfl⟩
    | ok out => exact ⟨_, rfl⟩
  · exact ⟨_, rfl⟩

/-! ## The three functions -/

theorem At.read_ok (h : delivers.At b p) {n : Nat} {got : Bytes}
    (hread : dec.read n b = some (.ok got, b')) :
    got.length ≤ n ∧ got = segment D p got.length ∧
      delivers.At b' (p + got.length) := by
  unfold Decompressor.read at hread
  split at hread <;> cases hread
  rename_i b₁ hrefill
  obtain ⟨h₁, -⟩ := h.refill_ok hrefill
  have hlength : (b₁.out.take n).length = min n b₁.out.length :=
    List.length_take
  refine ⟨by omega, ?_, ?_⟩
  · rw [← h₁.take_eq (by omega), hlength, List.take_eq_take_iff]
    omega
  · have hdrop : b₁.out.drop n = b₁.out.drop (b₁.out.take n).length := by
      rw [hlength]
      rcases le_total n b₁.out.length with hn | hn
      · rw [min_eq_left hn]
      · rw [min_eq_right hn, List.drop_length, List.drop_of_length_le hn]
    rw [hdrop]
    exact h₁.drop (by omega)

theorem At.read_error (h : delivers.At b p) {n : Nat} {e : Failure}
    (hread : dec.read n b = some (.error e, b')) :
    delivers.FailsAt p e b' := by
  unfold Decompressor.read at hread
  split at hread <;> cases hread
  rename_i hrefill
  exact h.refill_error hrefill

theorem At.read_returns (h : delivers.At b p) (n : Nat) :
    ∃ r, dec.read n b = some r := by
  obtain ⟨⟨outcome, b₁⟩, hrefill⟩ := h.refill_returns
  unfold Decompressor.read
  rw [hrefill]
  cases outcome with
  | error e => exact ⟨_, rfl⟩
  | ok _ => exact ⟨_, rfl⟩

theorem At.discard_spec (h : delivers.At b p) {fuel : Nat} {k : Int}
    {outcome : Except Failure Unit}
    (hdiscard : dec.discard fuel k b = some (outcome, b')) :
    (outcome = .ok () ∧ delivers.At b' (p + k.toNat)) ∨
      ∃ e q, outcome = .error e ∧ p ≤ q ∧ q < p + k.toNat ∧
        delivers.FailsAt q e b' := by
  refine loop_spec
    (I := fun l : Int × Buffered dec => ∃ q, p ≤ q ∧ delivers.At l.2 q ∧
      q + l.1.toNat = p + k.toNat)
    (Q := fun r : Except Failure Unit × Buffered dec =>
      (r.1 = .ok () ∧ delivers.At r.2 (p + k.toNat)) ∨
        ∃ e q, r.1 = .error e ∧ p ≤ q ∧ q < p + k.toNat ∧
          delivers.FailsAt q e r.2) ?_
    ⟨p, le_refl p, h, rfl⟩ hdiscard
  rintro l step ⟨q, hle, hat, hsum⟩ hstep
  unfold Decompressor.discardBody at hstep
  split at hstep
  · rename_i hdone
    cases hstep
    refine .inl ⟨rfl, ?_⟩
    rwa [← hsum, show l.1.toNat = 0 by omega]
  split at hstep <;> cases hstep
  · rename_i hrefill
    exact .inr ⟨_, q, rfl, hle, by omega, hat.refill_error hrefill⟩
  · rename_i b₁ hrefill
    obtain ⟨hat', -⟩ := hat.refill_ok hrefill
    refine ⟨q + min l.1.toNat b₁.out.length, by omega,
      hat'.drop (Nat.min_le_right _ _), ?_⟩
    dsimp only
    omega

/-- How `WriteTo` ends, at the position behind what it has delivered. -/
inductive WriteEnds (delivers : Delivers dec D) (w : Writer) (n : Int)
    (p : Nat) (chunks : List Bytes) (b : Buffered dec) :
    Except Failure Unit → Prop
  | ok : AcceptsChunks w chunks → (chunks.flatten.length : Int) = max n 0 →
      delivers.At b p → WriteEnds delivers w n p chunks b (.ok ())
  | refused {e : Failure} : RefusesLast w chunks e → delivers.At b p →
      WriteEnds delivers w n p chunks b (.error e)
  | failed {e : Failure} : AcceptsChunks w chunks →
      (chunks.flatten.length : Int) < n → delivers.FailsAt p e b →
      WriteEnds delivers w n p chunks b (.error e)

theorem At.writeTo_spec (h : delivers.At b p) {fuel : Nat} {w : Writer}
    {n : Int} {result : WriteResult}
    (hwrite : dec.writeTo fuel w n b = some (result, b')) :
    result.extracted = result.chunks.flatten.length ∧
      (result.extracted ≤ n ∨ result.chunks = []) ∧
      result.chunks.flatten = segment D p result.chunks.flatten.length ∧
      WriteEnds delivers w n (p + result.chunks.flatten.length) result.chunks
        b' result.outcome := by
  refine loop_spec
    (I := fun l : Decompressor.WriteLoop dec =>
      l.extracted = l.chunks.flatten.length ∧
        l.extracted + max l.filesize 0 = max n 0 ∧
        (l.extracted ≤ n ∨ l.chunks = []) ∧
        l.chunks.flatten = segment D p l.chunks.flatten.length ∧
        AcceptsChunks w l.chunks ∧
        delivers.At l.buffer (p + l.chunks.flatten.length))
    (Q := fun r : WriteResult × Buffered dec =>
      r.1.extracted = r.1.chunks.flatten.length ∧
        (r.1.extracted ≤ n ∨ r.1.chunks = []) ∧
        r.1.chunks.flatten = segment D p r.1.chunks.flatten.length ∧
        WriteEnds delivers w n (p + r.1.chunks.flatten.length) r.1.chunks r.2
          r.1.outcome) ?_ ?_ hwrite
  · rintro l step ⟨hextracted, hsum, hle, hflat, haccepts, hat⟩ hstep
    unfold Decompressor.writeBody at hstep
    split at hstep
    · cases hstep
      exact ⟨hextracted, hle, hflat, .ok haccepts (by dsimp only; omega) hat⟩
    rename_i hpositive
    split at hstep <;> cases hstep
    · rename_i hrefill
      exact ⟨hextracted, hle, hflat,
        .failed haccepts (by dsimp only; omega) (hat.refill_error hrefill)⟩
    · rename_i b₁ hrefill
      obtain ⟨hat', -⟩ := hat.refill_ok hrefill
      generalize hmin : min l.filesize.toNat b₁.out.length = minsize
      have hchunk := hat'.take_eq (n := minsize) (by omega)
      have hmoved := hat'.drop (n := minsize) (by omega)
      have hlength : (l.chunks ++ [b₁.out.take minsize]).flatten.length =
          l.chunks.flatten.length + minsize := by
        simp only [List.flatten_append, List.flatten_cons, List.flatten_nil,
          List.append_nil, List.length_append, List.length_take]
        omega
      have hnext : (l.chunks ++ [b₁.out.take minsize]).flatten =
          segment D p (l.chunks ++ [b₁.out.take minsize]).flatten.length := by
        rw [hlength, ← segment_append, ← hflat, ← hchunk]
        simp
      rw [Nat.add_assoc, ← hlength] at hmoved
      unfold Decompressor.writeChunk
      dsimp only
      split
      · rename_i hanswer
        exact ⟨by dsimp only; omega, by dsimp only; omega,
          .inl (by dsimp only; omega), hnext, haccepts.concat hanswer, hmoved⟩
      · rename_i hanswer
        exact ⟨by dsimp only; omega, .inl (by dsimp only; omega), hnext,
          .refused (haccepts.refuse hanswer) hmoved⟩
  · exact ⟨rfl, by simp, .inr rfl, by simp, acceptsChunks_nil w,
      by simpa using h⟩

/-! ## Termination -/

/-- Each round moves on, except for one in front of a failure. -/
def Bound (delivers : Delivers dec D) (m : Nat) (b : Buffered dec) : Prop :=
  ∃ q, delivers.At b q ∧ (2 * (D.length - q) + 1 ≤ m ∨
    b.out = [] ∧ delivers.Spent b.state ∧ 2 * (D.length - q) ≤ m)

theorem At.le (h : delivers.At b p) : p ≤ D.length := by
  obtain ⟨rest, -, -, hlength⟩ := h
  omega

/-- A round that takes at least one byte if there is one. -/
theorem Bound.refill {m : Nat} (h : Bound delivers m b)
    (hrefill : dec.refill b = some (.ok (), b')) {n : Nat} (hn : 0 < n) :
    ∃ m' < m, Bound delivers m'
      { b' with out := b'.out.drop (min n b'.out.length) } := by
  obtain ⟨q, hat, hbound⟩ := h
  obtain ⟨hat', hspent⟩ := hat.refill_ok hrefill
  have hmoved := hat'.drop (n := min n b'.out.length) (Nat.min_le_right _ _)
  have hle := hmoved.le
  rcases hbound with hbound | ⟨hempty, hfails, -⟩
  · rcases Nat.eq_zero_or_pos b'.out.length with hzero | hpos
    · have hnil := List.length_eq_zero_iff.mp hzero
      refine ⟨m - 1, by omega, _, hmoved, .inr ⟨?_, hspent hnil, ?_⟩⟩
      · simp [hnil]
      · omega
    · exact ⟨m - 1, by omega, _, hmoved, .inl (by omega)⟩
  · unfold Decompressor.refill at hrefill
    rw [hempty, List.isEmpty_nil, if_pos rfl] at hrefill
    split at hrefill <;> cases hrefill
    rename_i hdecompress
    exact absurd hdecompress (delivers.spent hfails)

theorem At.discard_returns (h : delivers.At b p) {fuel : Nat}
    (hfuel : 2 * D.length + 1 < fuel) (k : Int) :
    ∃ r, dec.discard fuel k b = some r := by
  refine loop_returns (B := fun m (l : Int × Buffered dec) =>
    Bound delivers m l.2) ?_ ⟨p, h, .inl (by omega)⟩ hfuel
  intro m l hl
  obtain ⟨q, hat, -⟩ := id hl
  obtain ⟨⟨outcome, b₁⟩, hrefill⟩ := hat.refill_returns
  unfold Decompressor.discardBody
  split
  · exact ⟨_, rfl, by simp⟩
  · rename_i hpositive
    rw [hrefill]
    cases outcome with
    | error e => exact ⟨_, rfl, by simp⟩
    | ok _ =>
        refine ⟨_, rfl, ?_⟩
        rintro l' ⟨⟩
        exact hl.refill hrefill (by omega)

theorem At.writeTo_returns (h : delivers.At b p) {fuel : Nat}
    (hfuel : 2 * D.length + 1 < fuel) (w : Writer) (n : Int) :
    ∃ r, dec.writeTo fuel w n b = some r := by
  refine loop_returns (B := fun m (l : Decompressor.WriteLoop dec) =>
    Bound delivers m l.buffer) ?_ ⟨p, h, .inl (by omega)⟩ hfuel
  intro m l hl
  obtain ⟨q, hat, -⟩ := id hl
  obtain ⟨⟨outcome, b₁⟩, hrefill⟩ := hat.refill_returns
  unfold Decompressor.writeBody
  split
  · exact ⟨_, rfl, by simp⟩
  · rename_i hpositive
    rw [hrefill]
    cases outcome with
    | error e => exact ⟨_, rfl, by simp⟩
    | ok _ =>
        refine ⟨_, rfl, ?_⟩
        intro l' hl'
        unfold Decompressor.writeChunk at hl'
        dsimp only at hl'
        split at hl' <;> cases hl'
        exact hl.refill hrefill (by omega)

/-! ## The cursor -/

/-- If no failure loses output, the reader is a cursor over the stream. -/
def cursor (delivers : Delivers dec D) {fuel : Nat}
    (hfuel : 2 * D.length + 1 < fuel)
    (hsteady : ∀ {s s' rest e}, delivers.Ahead s rest →
      dec.decompress s = some (.error e, s') → delivers.Ahead s' rest) :
    TotalCursor (dec.reader fuel) D :=
  have hfails : ∀ {p e b}, delivers.FailsAt p e b → delivers.At b p := by
    rintro p e b ⟨s, rest, hahead, hsuffix, hlength, hdecompress, hempty⟩
    refine ⟨rest, hsteady hahead hdecompress, ?_, ?_⟩ <;>
      rwa [hempty, List.nil_append]
  { At := delivers.At
    Forward := fun _ => True
    forward_of_nonneg := fun _ => trivial
    read_ok := fun h hread => At.read_ok h hread
    read_error := fun h hread =>
      ⟨_, le_refl _, hfails (At.read_error h hread)⟩
    discard_ok := fun h _ hdiscard => by
      rcases At.discard_spec h hdiscard with ⟨-, hat⟩ | ⟨_, _, heq, -⟩
      · exact hat
      · cases heq
    discard_error := fun h _ hdiscard => by
      rcases At.discard_spec h hdiscard with ⟨heq, -⟩ | ⟨_, q, -, hle, -, hat⟩
      · cases heq
      · exact ⟨q, hle, hfails hat⟩
    writeTo_spec := fun h hwrite => by
      obtain ⟨hextracted, hle, hflat, hends⟩ := At.writeTo_spec h hwrite
      refine ⟨hextracted, hle, hflat, ?_⟩
      generalize WriteResult.outcome _ = outcome at hends
      cases hends with
      | ok _ _ hat => exact hat
      | refused _ hat => exact hat
      | failed _ _ hat => exact hfails hat
    read_returns := fun h n => At.read_returns h n
    discard_returns := fun h k _ => At.discard_returns h hfuel k }

end Delivers

end Baulk.Tar
