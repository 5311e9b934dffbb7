import Baulk.Tar.Compression

/-!
# The view of the tar reader

What a reader delivers over a sequence of calls.  The calls that succeed
deliver consecutive segments of the decoded stream, and requests within the
stream are answered as a file with the same content would answer them.
-/

namespace Baulk.Tar

open Support (Step loop loop_spec loop_returns)

variable {R : ExtractReader} {D : Bytes}

/-! ## Successful calls -/

/-- A call that has succeeded, with what it delivered. -/
inductive Event where
  | read (got : Bytes)
  | skip (len : Int)
  | write (filesize : Int) (chunks : List Bytes) (extracted : Int)

namespace Event

/-- How far a call moves. -/
def length : Event → Nat
  | read got => got.length
  | skip len => len.toNat
  | write filesize _ _ => filesize.toNat

/-- At position `p`, the call has delivered the next bytes. -/
def Delivered (D : Bytes) (p : Nat) : Event → Prop
  | read got => got = segment D p got.length
  | skip len => p + len.toNat ≤ D.length
  | write filesize chunks extracted =>
      chunks.flatten = segment D p filesize.toNat ∧
        chunks.flatten.length = filesize.toNat ∧
        extracted = filesize.toNat

/-- From position `p` on, the calls have delivered consecutive segments. -/
def Consecutive (D : Bytes) : Nat → List Event → Prop
  | _, [] => True
  | p, event :: events =>
      event.Delivered D p ∧ Consecutive D (p + event.length) events

end Event

/-- Calls that succeed, one after the other. -/
inductive Succeeds (R : ExtractReader) : R.State → List Event → Prop
  | nil (s : R.State) : Succeeds R s []
  | read {s s' : R.State} {n : Nat} {got : Bytes} {events : List Event} :
      R.read n s = some (.ok got, s') → Succeeds R s' events →
      Succeeds R s (.read got :: events)
  | skip {s s' : R.State} {len : Int} {events : List Event} :
      R.discard len s = some (.ok (), s') → Succeeds R s' events →
      Succeeds R s (.skip len :: events)
  | write {s s' : R.State} {w : Writer} {filesize extracted : Int}
      {chunks : List Bytes} {events : List Event} :
      R.writeTo w filesize s = some (⟨.ok (), chunks, extracted⟩, s') →
      Succeeds R s' events →
      Succeeds R s (.write filesize chunks extracted :: events)

/-! ## Requests -/

/-- What the tar reader wants from an underlying reader. -/
inductive Request where
  | read (size : Nat)
  | discard (size : Nat)
  | writeTo (size : Nat)

namespace Request

def size : Request → Nat
  | read size => size
  | discard size => size
  | writeTo size => size

/-- The bytes that answer a request at position `p`. -/
def answer (D : Bytes) (p : Nat) : Request → Bytes
  | read size => segment D p size
  | discard _ => []
  | writeTo size => segment D p size

/-- Make a request, with a writer that accepts everything. -/
def ask (R : ExtractReader) (s : R.State) :
    Request → Option (Except Failure Bytes × R.State)
  | read size => readBytes R size s
  | discard size =>
      match R.discard size s with
      | none => none
      | some (.error e, s) => some (.error e, s)
      | some (.ok (), s) => some (.ok [], s)
  | writeTo size =>
      match R.writeTo (fun _ => .accept) size s with
      | none => none
      | some (result, s) =>
          some (result.outcome.map fun _ => result.chunks.flatten, s)

/-- Make requests until one fails, and collect the answers. -/
def askAll (R : ExtractReader) (s : R.State) : List Request →
    Option (List Bytes)
  | [] => some []
  | request :: requests =>
      match ask R s request with
      | none => none
      | some (.error _, _) => some []
      | some (.ok data, s) =>
          match askAll R s requests with
          | none => none
          | some rest => some (data :: rest)

/-- The answers to requests from position `p` on. -/
def answers (D : Bytes) : Nat → List Request → List Bytes
  | _, [] => []
  | p, request :: requests =>
      request.answer D p :: answers D (p + request.size) requests

/-- All requests together. -/
def total (requests : List Request) : Nat :=
  (requests.map size).sum

end Request

/-- The contract of an underlying reader for the stream `D`. -/
structure SameView (R : ExtractReader) (s : R.State) (D : Bytes) : Prop where
  segments : ∀ events, Succeeds R s events → Event.Consecutive D 0 events
  answered : ∀ requests, Request.total requests ≤ D.length →
    Request.askAll R s requests = some (Request.answers D 0 requests)

/-! ## Readers that answer -/

/-- Within `D`, every call is answered with the bytes at the position.  Reads
are of the sizes given. -/
structure Answers (R : ExtractReader) (D : Bytes) (Reads : Nat → Prop) where
  At : R.State → Nat → Prop
  read : ∀ {s p n}, At s p → p < D.length → Reads n → 0 < n →
    ∃ got s', R.read n s = some (.ok got, s') ∧ got ≠ [] ∧ got.length ≤ n ∧
      got = segment D p got.length ∧ At s' (p + got.length)
  discard : ∀ {s p n}, At s p → p + n ≤ D.length →
    ∃ s', R.discard n s = some (.ok (), s') ∧ At s' (p + n)
  writeTo : ∀ {s p n}, At s p → p + n ≤ D.length →
    ∃ chunks extracted s', R.writeTo (fun _ => .accept) n s =
        some (⟨.ok (), chunks, extracted⟩, s') ∧
      chunks.flatten = segment D p n ∧ At s' (p + n)

namespace Answers

variable {Reads : Nat → Prop} (answers : Answers R D Reads)
  (hreads : ∀ {m n}, m ≤ n → Reads n → Reads m)

include hreads

theorem readFull {calls : Nat} :
    ∀ {n p : Nat} {s : R.State}, answers.At s p → p + n ≤ D.length →
      Reads n → n ≤ calls →
      ∃ s', Tar.readFull R calls n s = some (.ok (segment D p n), s') ∧
        answers.At s' (p + n) := by
  induction calls with
  | zero =>
      intro n p s hs _ _ hn
      obtain rfl : n = 0 := by omega
      exact ⟨s, by rw [segment_zero]; rfl, hs⟩
  | succ calls ih =>
      intro n p s hs hle hsize hn
      cases n with
      | zero => exact ⟨s, by rw [segment_zero]; rfl, hs⟩
      | succ n =>
          obtain ⟨got, s₁, hread, hne, hlength, hgot, hs₁⟩ :=
            answers.read hs (by omega) hsize (Nat.succ_pos n)
          have hpos := List.length_pos_iff.mpr hne
          have hsum : got.length + (n + 1 - got.length) = n + 1 := by omega
          obtain ⟨s', hrest, hs'⟩ := ih (n := n + 1 - got.length) hs₁
            (by omega) (hreads (by omega) hsize) (by omega)
          have hdata : got ++ segment D (p + got.length)
              (n + 1 - got.length) = segment D p (n + 1) := by
            rw [← hsum, ← segment_append, ← hgot, hsum]
          refine ⟨s', ?_, by rwa [Nat.add_assoc, hsum] at hs'⟩
          unfold Tar.readFull
          rw [hread]
          dsimp only
          rw [if_neg (by simpa using hne), hrest]
          dsimp only
          rw [hdata]

theorem ask {s : R.State} {p : Nat} (hs : answers.At s p) (request : Request)
    (hle : p + request.size ≤ D.length) (hsize : Reads request.size) :
    ∃ s', request.ask R s = some (.ok (request.answer D p), s') ∧
      answers.At s' (p + request.size) := by
  cases request with
  | read size => exact answers.readFull hreads hs hle hsize (le_refl _)
  | discard size =>
      obtain ⟨s', hdiscard, hs'⟩ := answers.discard (n := size) hs hle
      refine ⟨s', ?_, hs'⟩
      rw [Request.ask, hdiscard]
      rfl
  | writeTo size =>
      obtain ⟨chunks, extracted, s', hwrite, hflat, hs'⟩ :=
        answers.writeTo (n := size) hs hle
      refine ⟨s', ?_, hs'⟩
      rw [Request.ask, hwrite]
      dsimp only [Except.map]
      rw [hflat]
      rfl

theorem askAll (requests : List Request) :
    ∀ {s : R.State} {p : Nat}, answers.At s p →
      p + Request.total requests ≤ D.length →
      (∀ request ∈ requests, Reads request.size) →
      Request.askAll R s requests = some (Request.answers D p requests) := by
  induction requests with
  | nil =>
      intro s p _ _ _
      rfl
  | cons request requests ih =>
      intro s p hs hle hsizes
      rw [Request.total, List.map_cons, List.sum_cons, ← Request.total] at hle
      obtain ⟨s', hask, hs'⟩ := answers.ask hreads hs request (by omega)
        (hsizes request List.mem_cons_self)
      rw [Request.askAll, hask]
      dsimp only
      rw [ih hs' (by omega)
        fun r hr => hsizes r (List.mem_cons_of_mem _ hr)]
      rfl

end Answers

/-! ## Readers around a decompressor -/

section Buffered

variable {dec : Decompressor} {fuel : Nat} {b b' : Buffered dec} {p : Nat}

theorem Delivers.consecutive {delivers : Delivers dec D}
    {events : List Event} :
    ∀ {b : (dec.reader fuel).State} {p : Nat}, delivers.At b p →
      Succeeds (dec.reader fuel) b events → Event.Consecutive D p events := by
  induction events with
  | nil =>
      intro b p _ _
      trivial
  | cons event events ih =>
      intro b p hat h
      cases h with
      | read hcall hrest =>
          obtain ⟨-, hgot, hat'⟩ := Delivers.At.read_ok hat hcall
          exact ⟨hgot, ih hat' hrest⟩
      | skip hcall hrest =>
          rcases Delivers.At.discard_spec hat hcall with ⟨-, hat'⟩ | ⟨_, _, heq, -⟩
          · exact ⟨hat'.le, ih hat' hrest⟩
          · cases heq
      | @write _ _ _ filesize extracted chunks _ hcall hrest =>
          obtain ⟨hextracted, -, hflat, hends⟩ :=
            Delivers.At.writeTo_spec hat hcall
          dsimp only at hextracted hflat hends
          cases hends with
          | ok _ hlength hat' =>
              have hn : chunks.flatten.length = filesize.toNat := by omega
              rw [hn] at hflat hat'
              exact ⟨⟨hflat, hn, by omega⟩, ih hat' hrest⟩

variable {file : SourceFile} {init : dec.State}

/-- Before the end of a complete stream nothing stops a decompressor but the
system. -/
theorem Stops.not_early {rest : Bytes} {e : Failure}
    (h : Stops file .complete rest e) (hfault : ∀ n, file.fault n = none)
    (hrest : rest ≠ []) : False := by
  cases h with
  | system h => simp [hfault] at h
  | silent _ h => exact hrest h
  | ended _ h => exact hrest h
  | broken h => exact h.elim (fun h => h rfl) hrest

variable (supply : Supply file dec init D .complete)

include supply

theorem Supply.not_failsAt {e : Failure} (hfault : ∀ n, file.fault n = none)
    (hp : p < D.length) : ¬supply.delivers.FailsAt p e b := by
  rintro ⟨s, rest, hahead, -, hlength, hfails, -⟩
  refine (supply.stops hahead hfails).not_early hfault ?_
  rintro rfl
  rw [List.length_nil] at hlength
  omega

/-- Within the stream, refilling the buffer yields output. -/
theorem Supply.refill (hfault : ∀ n, file.fault n = none)
    (hat : supply.delivers.At b p) (hp : p < D.length) :
    ∃ b', dec.refill b = some (.ok (), b') ∧ b'.out ≠ [] ∧
      supply.delivers.At b' p := by
  obtain ⟨⟨outcome, b'⟩, hrefill⟩ := hat.refill_returns
  cases outcome with
  | error e =>
      exact absurd (hat.refill_error hrefill) (supply.not_failsAt hfault hp)
  | ok _ =>
      obtain ⟨hat', hspent⟩ := hat.refill_ok hrefill
      refine ⟨b', hrefill, fun hnil => ?_, hat'⟩
      -- An empty buffer is followed by a failure, which is no less too early.
      obtain ⟨⟨outcome, b''⟩, hagain⟩ := hat'.refill_returns
      cases outcome with
      | error e =>
          exact supply.not_failsAt hfault hp (hat'.refill_error hagain)
      | ok _ =>
          unfold Decompressor.refill at hagain
          rw [hnil, List.isEmpty_nil, if_pos rfl] at hagain
          split at hagain <;> cases hagain
          rename_i hdecompress
          exact supply.delivers.spent (hspent hnil) hdecompress

omit supply in
theorem not_refusesLast {chunks : List Bytes} {e : Failure} :
    ¬RefusesLast (fun _ => .accept) chunks e := by
  rintro ⟨h, -⟩
  cases h

/-- A complete stream is answered from. -/
def Supply.answers (hfault : ∀ n, file.fault n = none)
    (hfuel : 2 * D.length + 1 < fuel) :
    Answers (dec.reader fuel) D (fun _ => True) where
  At := supply.delivers.At
  read {b p n} hat hp _ hn := by
    obtain ⟨b₁, hrefill, hne, -⟩ := supply.refill hfault hat hp
    have hread : dec.read n b = some (.ok (b₁.out.take n),
        { b₁ with out := b₁.out.drop n }) := by
      unfold Decompressor.read
      rw [hrefill]
    obtain ⟨hlength, hgot, hat'⟩ := Delivers.At.read_ok hat hread
    refine ⟨_, _, hread, ?_, hlength, hgot, hat'⟩
    intro hnil
    rw [List.take_eq_nil_iff] at hnil
    exact hnil.elim (by omega) hne
  discard {b p n} hat hle := by
    obtain ⟨⟨outcome, b'⟩, hdiscard⟩ :=
      Delivers.At.discard_returns hat hfuel n
    rcases Delivers.At.discard_spec hat hdiscard with ⟨rfl, hat'⟩ |
      ⟨e, q, rfl, -, hq, hfails⟩
    · exact ⟨b', hdiscard, hat'⟩
    · rw [Int.toNat_natCast] at hq
      exact absurd hfails (supply.not_failsAt hfault (by omega))
  writeTo {b p n} hat hle := by
    obtain ⟨⟨⟨outcome, chunks, extracted⟩, b'⟩, hwrite⟩ :=
      Delivers.At.writeTo_returns hat hfuel (fun _ => .accept) n
    obtain ⟨hextracted, -, hflat, hends⟩ :=
      Delivers.At.writeTo_spec hat hwrite
    dsimp only at hextracted hflat hends
    cases hends with
    | ok _ hlength hat' =>
        have hn : chunks.flatten.length = n := by omega
        rw [hn] at hflat hat'
        exact ⟨_, _, _, hwrite, hflat, hat'⟩
    | refused hrefuses _ => exact absurd hrefuses not_refusesLast
    | failed _ hshort hfails =>
        exact absurd hfails (supply.not_failsAt hfault (by omega))

theorem Supply.sameView (hfault : ∀ n, file.fault n = none)
    (hfuel : 2 * D.length + 1 < fuel) :
    SameView (dec.reader fuel) (⟨[], init⟩ : Buffered dec) D := by
  have hstart : supply.delivers.At ⟨[], init⟩ 0 :=
    ⟨D, supply.start, List.suffix_refl D, by simp⟩
  refine ⟨fun events h => Delivers.consecutive hstart h, ?_⟩
  intro requests hle
  exact (supply.answers hfault hfuel).askAll (fun _ h => h) requests hstart
    (by omega) (fun _ _ => trivial)

end Buffered

/-! ## A file -/

namespace FileReader

variable {file : SourceFile} {fuel : Nat}

theorem readFile_of_no_fault (hfault : ∀ n, file.fault n = none) (len : Nat)
    (s : FileState) :
    readFile file len s =
      (.ok (segment file.content.bytes s.pos (len % 2 ^ 32)),
        ⟨s.pos + (segment file.content.bytes s.pos (len % 2 ^ 32)).length,
          s.calls + 1⟩) := by
  rw [readFile, hfault]

/-- Within the file, `WriteTo` hands over all that is asked for. -/
theorem writeTo_within (hfault : ∀ n, file.fault n = none) {n : Nat}
    {s : FileState} (hle : s.pos + n ≤ file.content.bytes.length)
    (hfuel : n < fuel) :
    ∃ chunks extracted s', writeTo file fuel (fun _ => .accept) n s =
        some (⟨.ok (), chunks, extracted⟩, s') ∧
      chunks.flatten = segment file.content.bytes s.pos n ∧
      s'.pos = s.pos + n := by
  have hround : ∀ l : WriteLoop, 0 < l.filesize →
      l.state.pos + l.filesize.toNat ≤ file.content.bytes.length →
      ∃ got, 0 < got.length ∧ (got.length : Int) ≤ l.filesize ∧
        writeBody file (fun _ => .accept) l = some (.next
          { filesize := l.filesize - got.length
            extracted := l.extracted + got.length
            chunks := l.chunks ++ [got]
            state := ⟨l.state.pos + got.length, l.state.calls + 1⟩ }) := by
    intro l hpos hroom
    have hsize : 0 < bufferSize ∧ bufferSize < 2 ^ 32 := by decide
    refine ⟨segment file.content.bytes l.state.pos
      (min bufferSize l.filesize.toNat % 2 ^ 32), ?_, ?_, ?_⟩
    · rw [length_segment, Nat.mod_eq_of_lt (by omega)]
      omega
    · rw [length_segment, Nat.mod_eq_of_lt (by omega)]
      omega
    · unfold writeBody
      rw [if_neg (by omega)]
      dsimp only
      rw [readFile_of_no_fault hfault]
  obtain ⟨⟨result, s'⟩, hwrite⟩ : ∃ r,
      writeTo file fuel (fun _ => .accept) n s = some r := by
    refine loop_returns (B := fun m (l : WriteLoop) => l.filesize.toNat ≤ m ∧
      l.state.pos + l.filesize.toNat ≤ file.content.bytes.length) ?_
      ⟨le_refl _, hle⟩ hfuel
    rintro m l ⟨hm, hroom⟩
    by_cases hdone : l.filesize ≤ 0
    · refine ⟨_, by rw [writeBody, if_pos hdone], by simp⟩
    · obtain ⟨got, hpos, hshort, hbody⟩ := hround l (by omega) hroom
      refine ⟨_, hbody, ?_⟩
      rintro l' ⟨⟩
      exact ⟨(l.filesize - got.length).toNat, by omega, le_refl _,
        by dsimp only; omega⟩
  have hall : result.outcome = .ok () ∧ result.extracted = n := by
    refine loop_spec
      (I := fun l : WriteLoop => l.extracted + l.filesize = n ∧
        0 ≤ l.filesize ∧
        l.state.pos + l.filesize.toNat ≤ file.content.bytes.length)
      (Q := fun r : WriteResult × FileState =>
        r.1.outcome = .ok () ∧ r.1.extracted = n) ?_ ?_ hwrite
    · rintro l step ⟨hsum, hsize, hroom⟩ hstep
      by_cases hdone : l.filesize ≤ 0
      · rw [writeBody, if_pos hdone] at hstep
        cases hstep
        exact ⟨rfl, by dsimp only; omega⟩
      · obtain ⟨got, hpos, hshort, hbody⟩ := hround l (by omega) hroom
        rw [hbody] at hstep
        cases hstep
        exact ⟨by dsimp only; omega, by dsimp only; omega,
          by dsimp only; omega⟩
    · exact ⟨by simp, by simp, hle⟩
  obtain ⟨hextracted, -, hflat, hpos⟩ := writeTo_chunks hwrite
  obtain ⟨outcome, chunks, extracted⟩ := result
  obtain ⟨rfl, rfl⟩ := hall
  have hlength : chunks.flatten.length = n := by
    dsimp only at hextracted
    omega
  dsimp only at hflat hpos
  rw [hlength] at hflat hpos
  exact ⟨chunks, _, s', hwrite, hflat, hpos⟩

theorem read_within (hfault : ∀ n, file.fault n = none) {n : Nat}
    (hn : n < 2 ^ 32) (s : FileState) :
    read file n s = (.ok (segment file.content.bytes s.pos n),
      ⟨s.pos + (segment file.content.bytes s.pos n).length, s.calls + 1⟩) := by
  rw [read, readFile_of_no_fault hfault, Nat.mod_eq_of_lt hn]

theorem discard_within (hfault : ∀ n, file.fault n = none) {n : Nat}
    {s : FileState} (hle : s.pos + n ≤ file.content.bytes.length) :
    discard file n s = (.ok (), ⟨s.pos + n, s.calls + 1⟩) := by
  have hlt := file.content.length_lt
  rw [discard, hfault]
  dsimp only
  rw [if_neg (by omega)]
  congr 2

/-- A file answers from its content. -/
def answers (hfault : ∀ n, file.fault n = none)
    (hfuel : file.content.bytes.length < fuel) :
    Answers (fileReader file fuel) file.content.bytes (fun n => n < 2 ^ 32)
    where
  At s p := s.pos = p
  read {s p n} hs hp hn hpos := by
    subst hs
    have hlength := length_segment file.content.bytes s.pos n
    refine ⟨_, _, congrArg some (read_within hfault hn s), ?_, by omega,
      (segment_length _ _ _).symm, rfl⟩
    intro hnil
    rw [hnil, List.length_nil] at hlength
    omega
  discard {s p n} hs hle := by
    subst hs
    exact ⟨_, congrArg some (discard_within hfault hle), rfl⟩
  writeTo {s p n} hs hle := by
    subst hs
    exact writeTo_within hfault hle (by omega)

end FileReader

/-! ## Brotli -/

section Brotli

variable {libs : Libraries} {file : SourceFile} {fuel : Nat}
  {f₀ : FileState}

theorem brotli_read (n : Nat) :
    (Compression.brotli.reader libs file fuel).read n
      (Compression.brotli.start libs file fuel f₀) =
      some (.error (some brotliError),
        Compression.brotli.start libs file fuel f₀) :=
  rfl

theorem brotli_discard (hfuel : 0 < fuel) (k : Int) :
    (Compression.brotli.reader libs file fuel).discard k
      (Compression.brotli.start libs file fuel f₀) =
      some (if k ≤ 0 then .ok () else .error (some brotliError),
        Compression.brotli.start libs file fuel f₀) := by
  obtain ⟨fuel', rfl⟩ : ∃ fuel', fuel = fuel' + 1 := ⟨fuel - 1, by omega⟩
  refine Support.loop_done ?_
  unfold Decompressor.discardBody
  dsimp only
  split
  · rfl
  · exact (congrArg _ rfl)

theorem brotli_writeTo (hfuel : 0 < fuel) (w : Writer) (n : Int) :
    (Compression.brotli.reader libs file fuel).writeTo w n
      (Compression.brotli.start libs file fuel f₀) =
      some (⟨if n ≤ 0 then .ok () else .error (some brotliError), [], 0⟩,
        Compression.brotli.start libs file fuel f₀) := by
  obtain ⟨fuel', rfl⟩ : ∃ fuel', fuel = fuel' + 1 := ⟨fuel - 1, by omega⟩
  refine Support.loop_done ?_
  unfold brotliWriteBody
  dsimp only
  split
  · rfl
  · rfl

theorem brotli_sameView_iff (hfuel : 0 < fuel) :
    SameView (Compression.brotli.reader libs file fuel)
      (Compression.brotli.start libs file fuel f₀) D ↔ D = [] := by
  constructor
  · rintro ⟨-, hanswered⟩
    by_contra hne
    have hone := hanswered [.read 1] (by
      have hpos := List.length_pos_iff.mpr hne
      simp only [Request.total, Request.size, List.map_cons, List.map_nil,
        List.sum_cons, List.sum_nil]
      omega)
    cases hone
  · rintro rfl
    refine ⟨fun events h => ?_, fun requests hle => ?_⟩
    · induction events with
      | nil => trivial
      | cons event events ih =>
          cases h with
          | read hcall hrest =>
              rw [brotli_read] at hcall
              cases hcall
          | @skip _ _ k _ hcall hrest =>
              rw [brotli_discard hfuel] at hcall
              split at hcall <;> cases hcall
              have hzero : k.toNat = 0 := by omega
              refine ⟨?_, ?_⟩
              · show 0 + k.toNat ≤ _
                omega
              · show Event.Consecutive [] (0 + k.toNat) events
                rw [hzero]
                exact ih hrest
          | @write _ _ _ k _ _ _ hcall hrest =>
              rw [brotli_writeTo hfuel] at hcall
              split at hcall <;> cases hcall
              have hzero : k.toNat = 0 := by omega
              refine ⟨⟨?_, ?_, ?_⟩, ?_⟩
              · rw [hzero]
                rfl
              · rw [hzero]
                rfl
              · rw [hzero]
                rfl
              · show Event.Consecutive [] (0 + k.toNat) events
                rw [hzero]
                exact ih hrest
    · refine Answers.askAll (D := [])
        { At := fun s p => s = Compression.brotli.start libs file fuel f₀ ∧
            p = 0
          read := fun _ hp => absurd hp (Nat.not_lt_zero _)
          discard := ?_
          writeTo := ?_ : Answers _ _ (fun _ => True) }
        (fun _ h => h) requests ⟨rfl, rfl⟩ (by omega) (fun _ _ => trivial)
      · rintro _ _ n ⟨rfl, rfl⟩ hn
        rw [List.length_nil] at hn
        obtain rfl : n = 0 := by omega
        exact ⟨_, brotli_discard hfuel 0, rfl, rfl⟩
      · rintro _ _ n ⟨rfl, rfl⟩ hn
        rw [List.length_nil] at hn
        obtain rfl : n = 0 := by omega
        exact ⟨_, _, _, brotli_writeTo hfuel _ 0, rfl, rfl, rfl⟩

end Brotli

/-! ## All readers -/

/-- For a file that the library decodes completely, and for zstd promptly, the
reader gives the view of the decoded stream, and hence that of a file with this
content, unless it is the one for Brotli and there is something to deliver. -/
theorem compression_sameView_iff {libs : Libraries} {file plain : SourceFile}
    {fuel : Nat} {f₀ : FileState} {k : Compression}
    (hdecodes : k.DecodesPromptly libs file f₀ plain.content.bytes .complete)
    (hfault : ∀ n, file.fault n = none) (hplain : ∀ n, plain.fault n = none)
    (hfuel : EnoughFuel file plain.content.bytes fuel) :
    (SameView (k.reader libs file fuel) (k.start libs file fuel f₀)
        plain.content.bytes ∧
      ∀ requests, Request.total requests ≤ plain.content.bytes.length →
        (∀ request ∈ requests, request.size < 2 ^ 32) →
        Request.askAll (k.reader libs file fuel)
            (k.start libs file fuel f₀) requests =
          Request.askAll (fileReader plain fuel) ⟨0, 0⟩ requests) ↔
      (k = .brotli → plain.content.bytes = []) := by
  have hfuel' := hfuel.2
  have hview : SameView (k.reader libs file fuel) (k.start libs file fuel f₀)
      plain.content.bytes ↔ (k = .brotli → plain.content.bytes = []) := by
    by_cases hk : k = .brotli
    · subst hk
      simp only [true_imp_iff]
      exact brotli_sameView_iff (by omega)
    · obtain ⟨supply⟩ := Compression.supply hk hfuel hdecodes
      refine ⟨fun _ h => absurd h hk, fun _ => ?_⟩
      have hsame := supply.sameView hfault hfuel'
      cases k with
      | brotli => exact absurd rfl hk
      | gz => exact hsame
      | bz2 => exact hsame
      | zstd => exact hsame
      | xz => exact hsame
  refine ⟨fun h => hview.mp h.1, fun h => ?_⟩
  have hsame := hview.mpr h
  refine ⟨hsame, fun requests hle hsizes => ?_⟩
  rw [hsame.answered requests hle]
  exact ((FileReader.answers hplain (by omega)).askAll
    (fun hle hlt => lt_of_le_of_lt hle hlt) requests (s := ⟨0, 0⟩) (p := 0)
    rfl (by omega) hsizes).symm

/-! ## Decoders that copy -/

/-- Copies its input and returns always the same status. -/
def copyCodec (ret : Int) : Zip.StreamCodec where
  State := Unit
  init := ()
  run _ _ input room :=
    { state := ()
      ret := ret
      consumed := min room input.length
      output := input.take room
      consumed_le := Nat.min_le_right _ _
      output_le := by rw [List.length_take]; exact Nat.min_le_left _ _ }

def copyDecoding (ret : Int) (calls : Int → Bytes → Bytes → Nat → Prop)
    (fatal : Int → Prop) (D : Bytes) :
    Decoding (copyCodec ret) calls fatal D D where
  Ahead _ unread rest := rest = unread
  start := rfl
  run {s unread rest action given room} hrest hgiven _ _ := by
    subst hrest
    refine ⟨(List.take_prefix room given).trans hgiven, ?_⟩
    show rest.drop (given.take room).length = rest.drop (min room given.length)
    rw [List.length_take]

/-- Copies its input, and reports the end when it is told to finish. -/
def finishCodec : Zip.StreamCodec where
  State := Unit
  init := ()
  run _ action input room :=
    { state := ()
      ret := if action = Zip.lzmaFinish then lzmaStreamEnd else 0
      consumed := min room input.length
      output := input.take room
      consumed_le := Nat.min_le_right _ _
      output_le := by rw [List.length_take]; exact Nat.min_le_left _ _ }

/-- What a call does that has input, and what the last one does. -/
theorem finishCodec_run {s : finishCodec.State} {a : Int}
    {given unread : Bytes} {n : Nat} (hcall : LzmaCall a given unread n) :
    (finishCodec.run s a given n).ret = 0 ∧
        (finishCodec.run s a given n).consumed ≠ 0 ∨
      (finishCodec.run s a given n).ret = lzmaStreamEnd ∧ unread = [] := by
  obtain ⟨hroom, ⟨rfl, hne⟩ | ⟨rfl, -, hunread⟩⟩ := hcall
  · have hpos := List.length_pos_iff.mpr hne
    refine .inl ⟨rfl, ?_⟩
    show min n given.length ≠ 0
    omega
  · exact .inr ⟨rfl, hunread⟩

def finishDecoding (D : Bytes) : LzmaDecoding finishCodec D D .complete where
  Ahead _ unread rest := rest = unread
  start := rfl
  run {s unread rest a given n} hrest hgiven _ _ := by
    subst hrest
    refine ⟨(List.take_prefix n given).trans hgiven, ?_⟩
    show rest.drop (given.take n).length = rest.drop (min n given.length)
    rw [List.length_take]
  Fresh _ := True
  Stalled _ := True
  fresh_init := trivial
  fresh_run {s a given unread n} _ _ hzero := by
    refine ⟨List.length_eq_zero_iff.mp ?_, trivial⟩
    show (given.take n).length = 0
    rw [List.length_take]
    exact hzero
  stalls _ _ _ := trivial
  stalled _ hcall hzero _ := by
    rcases finishCodec_run hcall with ⟨-, hne⟩ | ⟨hret, -⟩
    · exact absurd hzero hne
    · rw [hret]
      decide
  eager {s unread rest a given n} _ _ _ _ := by
    show (given.take n).length = n ∨ min n given.length = given.length
    rw [List.length_take]
    omega
  ended {s unread rest a given n} hrest _ hcall hret := by
    rcases finishCodec_run hcall with ⟨hzero, -⟩ | ⟨-, rfl⟩
    · rw [hzero] at hret
      exact absurd hret (by decide)
    · subst hrest
      exact ⟨List.drop_nil, rfl⟩
  broken _ _ hcall hfatal := by
    rcases finishCodec_run hcall with ⟨hzero, -⟩ | ⟨hend, -⟩
    · exact absurd hzero hfatal.1
    · exact absurd hend hfatal.2

def copyLibraries : Libraries where
  zError _ := []
  zlib := copyCodec 0
  bzlib := copyCodec 0
  zstd := ⟨true, fun _ => false, fun _ => [], copyCodec 0⟩
  lzma := finishCodec
  brotli := copyCodec 2

/-- A file with the single byte `a`. -/
def letterFile : SourceFile where
  content := ⟨[0x61], by decide⟩

/-- Of a file with one byte, decoded by copying, the readers for zstd and xz
give the same view as the file itself. -/
theorem letterFile_sameView :
    SameView (Compression.zstd.reader copyLibraries letterFile 600000)
        (Compression.zstd.start copyLibraries letterFile 600000 ⟨0, 0⟩)
        [0x61] ∧
      SameView (Compression.xz.reader copyLibraries letterFile 600000)
        (Compression.xz.start copyLibraries letterFile 600000 ⟨0, 0⟩)
        [0x61] := by
  have hzstd : Compression.zstd.DecodesPromptly copyLibraries letterFile
      ⟨0, 0⟩ letterFile.content.bytes .complete := by
    refine ⟨{ toDecoding := copyDecoding 0 _ _ _
              progress := ?_, broken := ?_, exhausted := ?_ }, ?_⟩
    · intro s unread rest given room _ _ hgiven hroom _
      left
      show min room given.length ≠ 0
      have hpos := List.length_pos_iff.mpr hgiven
      omega
    · intro s unread rest given room _ _ _ _ h
      cases h
    · intro s rest _
      decide
    · intro s rest h
      exact h
  have hxz : Compression.xz.DecodesPromptly copyLibraries letterFile
      ⟨0, 0⟩ letterFile.content.bytes .complete :=
    ⟨finishDecoding _⟩
  have hfuel : EnoughFuel letterFile letterFile.content.bytes 600000 :=
    ⟨by decide, by decide⟩
  refine ⟨((compression_sameView_iff hzstd (fun _ => rfl) (fun _ => rfl)
    hfuel).mpr ?_).1, ((compression_sameView_iff hxz (fun _ => rfl)
    (fun _ => rfl) hfuel).mpr ?_).1⟩
  · intro h
    cases h
  · intro h
    cases h

/-- Of a file with one byte, the reader for Brotli delivers nothing. -/
theorem brotli_letterFile_not_sameView :
    ¬∀ (libs : Libraries) (file : SourceFile) (fuel : Nat) (f₀ : FileState)
        (D : Bytes) (k : Compression), k.Decodes libs file f₀ D .complete →
      (∀ n, file.fault n = none) → EnoughFuel file D fuel →
      SameView (k.reader libs file fuel) (k.start libs file fuel f₀) D := by
  intro hall
  have hview := hall copyLibraries letterFile 600000 ⟨0, 0⟩ [0x61] .brotli
    ⟨copyDecoding 2 _ _ _⟩ (fun _ => rfl) ⟨by decide, by decide⟩
  have hempty := (brotli_sameView_iff (by decide)).mp hview
  cases hempty

end Baulk.Tar
