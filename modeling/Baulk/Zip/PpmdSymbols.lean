import Baulk.Zip.Accounting
import Baulk.Zip.DecompressInput

/-!
# The symbols of a PPMd entry

The decoder is any machine that asks for bytes and ends each of its operations with a
value; behind the last byte of the section it is given zeros.  Its symbols are the values
up to the first negative one.

`decompressPpmd` collects them in a buffer of one megabyte.  When the buffer was handed
over and all input was consumed it takes this for the end, whether the decoder has ended or
not; and when the decoder has ended and input is left it asks the decoder once more.
-/

namespace Baulk.Zip

open Archive (Summator)
open Session (chunks)
open Support (Step loop loop_next loop_done loop_spec)

/-! ## The abstract decoder -/

/-- One operation of the decoder on the bytes `input`: its value, and the bytes that it
leaves. -/
inductive Operation (c : PpmdCodec) :
    c.State → Bytes → Int → c.State → Bytes → Prop where
  | result {state state' : c.State} {input : Bytes} {value : Int} :
      c.request state = .result value state' → Operation c state input value state' input
  | byte {state state' : c.State} {input rest : Bytes} {value : Int}
      {k : UInt8 → c.State} :
      c.request state = .byte k → Operation c (k (input.headD 0)) input.tail value state' rest →
        Operation c state input value state' rest

/-- The symbols of the decoder up to its end, each with the bytes that are left after it,
and the state at the end. -/
inductive Symbols (c : PpmdCodec) :
    c.State → Bytes → List (UInt8 × Bytes) → c.State → Bytes → Prop where
  | stop {state last : c.State} {input rest : Bytes} {value : Int} :
      Operation c state input value last rest → value < 0 → Symbols c state input [] last rest
  | symbol {state state' last : c.State} {input rest lastRest : Bytes} {value : Int}
      {later : List (UInt8 × Bytes)} :
      Operation c state input value state' rest → 0 ≤ value →
        Symbols c state' rest later last lastRest →
        Symbols c state input ((UInt8.ofInt value, rest) :: later) last lastRest

/-- Input is left wherever the output buffer is full before the last symbol. -/
def InputLeft (symbols : List (UInt8 × Bytes)) : Prop :=
  ∀ k x, 0 < k → k * ppmdBufferSize < symbols.length →
    symbols[k * ppmdBufferSize - 1]? = some x → x.2 ≠ []

/-- If the decoder has ended in the middle of a buffer and input is left, then it ends
again. -/
def EndsAgain (c : PpmdCodec) (symbols : List (UInt8 × Bytes)) (last : c.State)
    (rest : Bytes) : Prop :=
  symbols.length % ppmdBufferSize ≠ 0 → rest ≠ [] →
    ∃ value state' rest', Operation c last rest value state' rest' ∧ value < 0

theorem ppmdBufferSize_pos : 0 < ppmdBufferSize :=
  Nat.two_pow_pos 20

theorem inputLeft_of_length_le {symbols : List (UInt8 × Bytes)}
    (h : symbols.length ≤ ppmdBufferSize) : InputLeft symbols := by
  intro k x hk hlt
  have hle := Nat.le_mul_of_pos_left ppmdBufferSize hk
  omega

theorem inputLeft_drop_iff {symbols : List (UInt8 × Bytes)} {x : UInt8 × Bytes}
    (hlt : ppmdBufferSize < symbols.length)
    (hx : symbols[ppmdBufferSize - 1]? = some x) :
    InputLeft symbols ↔ x.2 ≠ [] ∧ InputLeft (symbols.drop ppmdBufferSize) := by
  have hpos := ppmdBufferSize_pos
  constructor
  · intro h
    refine ⟨h 1 x Nat.one_pos (by rwa [Nat.one_mul]) (by rwa [Nat.one_mul]), ?_⟩
    intro k y hk hky hy
    rw [List.length_drop] at hky
    have hmul := Nat.add_one_mul k ppmdBufferSize
    have hle := Nat.le_mul_of_pos_left ppmdBufferSize hk
    refine h (k + 1) y (Nat.succ_pos k) (by omega) ?_
    rw [← hy, List.getElem?_drop]
    congr 1
    omega
  · rintro ⟨hfirst, hrest⟩ k y hk hky hy
    obtain rfl | ⟨j, rfl, hj⟩ : k = 1 ∨ ∃ j, k = j + 1 ∧ 0 < j := by
      rcases Nat.lt_or_ge 1 k with hk' | hk'
      · exact .inr ⟨k - 1, by omega, by omega⟩
      · exact .inl (by omega)
    · rw [Nat.one_mul, hx] at hy
      cases hy
      exact hfirst
    · have hmul := Nat.add_one_mul j ppmdBufferSize
      have hle := Nat.le_mul_of_pos_left ppmdBufferSize hj
      refine hrest j y hj (by rw [List.length_drop]; omega) ?_
      rw [← hy, List.getElem?_drop]
      congr 1
      omega

/-! ## The section reader -/

/-- The reader is in front of `rest`: of what is in its buffer, and of what is left of the
section in the file. -/
structure SectionReader.Ahead (env : Env) (sr : SectionReader) (s : Session)
    (rest : Bytes) : Prop where
  r_le : sr.r ≤ sr.w
  w_le : sr.w ≤ sr.cacheb.length
  available_nonneg : 0 ≤ sr.availableBytes
  available_lt : sr.availableBytes < 2 ^ 63
  inside : s.pos + sr.availableBytes.toNat ≤ env.content.bytes.length
  rest_eq : (sr.cacheb.drop sr.r).take (sr.w - sr.r) ++
    (env.content.bytes.drop s.pos).take sr.availableBytes.toNat = rest

namespace SectionReader.Ahead

variable {env : Env} {sr : SectionReader} {s : Session} {rest : Bytes}

theorem length_eq (h : sr.Ahead env s rest) :
    rest.length = (sr.w - sr.r) + sr.availableBytes.toNat := by
  have hr := h.r_le
  have hw := h.w_le
  have hinside := h.inside
  rw [← h.rest_eq, List.length_append, List.length_take, List.length_drop, List.length_take,
    List.length_drop]
  omega

theorem consumed_iff (h : sr.Ahead env s rest) :
    (sr.availableBytes = 0 ∧ sr.buffered = 0) ↔ rest = [] := by
  have hlength := h.length_eq
  have hnonneg := h.available_nonneg
  rw [← List.length_eq_zero_iff, SectionReader.buffered]
  omega

theorem of_pos_eq {s' : Session} (h : sr.Ahead env s rest) (hpos : s'.pos = s.pos) :
    sr.Ahead env s' rest where
  r_le := h.r_le
  w_le := h.w_le
  available_nonneg := h.available_nonneg
  available_lt := h.available_lt
  inside := hpos ▸ h.inside
  rest_eq := hpos ▸ h.rest_eq

theorem takeBuffered (h : sr.Ahead env s rest) (len : Nat) :
    ∃ n, n = min (sr.w - sr.r) len ∧ (sr.takeBuffered len).1 = rest.take n ∧
      (sr.takeBuffered len).2.Ahead env s (rest.drop n) := by
  have hr := h.r_le
  have hw := h.w_le
  generalize hn : min (sr.w - sr.r) len = n
  have hle : n ≤ sr.w - sr.r := by omega
  have hbuffer : ((sr.cacheb.drop sr.r).take (sr.w - sr.r)).length = sr.w - sr.r := by
    rw [List.length_take, List.length_drop]
    omega
  refine ⟨n, rfl, ?_, ?_, hw, h.available_nonneg, h.available_lt, h.inside, ?_⟩
  · rw [SectionReader.takeBuffered, hn, ← h.rest_eq, List.take_append_of_le_length
      (by omega), List.take_take, Nat.min_eq_left hle]
  · change sr.r + min (sr.w - sr.r) len ≤ sr.w
    omega
  · change (sr.cacheb.drop (sr.r + min (sr.w - sr.r) len)).take
      (sr.w - (sr.r + min (sr.w - sr.r) len)) ++ _ = _
    rw [hn, ← h.rest_eq, List.drop_append_of_le_length (by omega), List.drop_take,
      List.drop_drop, Nat.sub_sub]
    rfl

theorem refill (h : sr.Ahead env s rest) (hempty : sr.r = sr.w) (hfault : ∀ k, env.fault k = none)
    (hne : rest ≠ []) :
    ∃ (got : Bytes) (s' : Session), s.readFile env sr.refill = (.ok got, s') ∧
      sr.refill ≠ 0 ∧
      Ahead env { sr with
        cacheb := overwrite sr.cacheb got
        offset := sr.offset + sr.refill
        r := 0
        w := sr.refill } s' rest := by
  have hlength := h.length_eq
  have hnonneg := h.available_nonneg
  have hlt := h.available_lt
  have hinside := h.inside
  have hpos := List.length_pos_iff.mpr hne
  have hrefill : sr.refill = min SectionReader.capacity sr.availableBytes.toNat := by
    rw [SectionReader.refill, Int.emod_eq_of_lt hnonneg (by omega)]
  have hcapacity : 0 < SectionReader.capacity := by decide
  have hread : s.readFile env sr.refill =
      (.ok ((env.content.bytes.drop s.pos).take sr.refill),
        { pos := s.pos + ((env.content.bytes.drop s.pos).take sr.refill).length
          calls := s.calls + 1
          trace := s.trace ++
            [.read s.pos ((env.content.bytes.drop s.pos).take sr.refill)] }) := by
    rw [Session.readFile, hfault]
  generalize hgot : (env.content.bytes.drop s.pos).take sr.refill = got at hread
  have hgotLength : got.length = sr.refill := by
    rw [← hgot, List.length_take, List.length_drop]
    omega
  have hrest := h.rest_eq
  rw [hempty, Nat.sub_self, List.take_zero, List.nil_append] at hrest
  have hleft : (sr.size - (sr.offset + sr.refill)).toNat =
      sr.availableBytes.toNat - sr.refill := by
    rw [SectionReader.availableBytes] at hnonneg ⊢
    omega
  refine ⟨got, _, hread, by omega, Nat.zero_le _, ?_, ?_, ?_, ?_, ?_⟩
  · change sr.refill ≤ (overwrite sr.cacheb got).length
    rw [overwrite, List.length_append]
    omega
  · change 0 ≤ sr.size - (sr.offset + sr.refill)
    rw [SectionReader.availableBytes] at hnonneg hrefill
    omega
  · change sr.size - (sr.offset + sr.refill) < _
    rw [SectionReader.availableBytes] at hlt
    omega
  · change s.pos + got.length + (sr.size - (sr.offset + sr.refill)).toNat ≤ _
    omega
  · change ((overwrite sr.cacheb got).drop 0).take (sr.refill - 0) ++
      (env.content.bytes.drop (s.pos + got.length)).take
        (sr.size - (sr.offset + sr.refill)).toNat = rest
    have hall : sr.availableBytes.toNat =
        sr.refill + (sr.availableBytes.toNat - sr.refill) := by omega
    rw [hleft, List.drop_zero, Nat.sub_zero, ← hgotLength, take_overwrite, ← List.drop_drop,
      ← hrest]
    conv_rhs => rw [hall, List.take_add, hgot]
    rw [hgotLength]

/-- At the end of the section `Read` fails. -/
theorem read_nil (h : sr.Ahead env s []) (len : Nat) :
    ∃ (ec : ErrorCode) (sr' : SectionReader), sr.read env len s = (.error ec, sr', s) ∧
      sr'.Ahead env s [] := by
  have hlength := h.length_eq
  have hr := h.r_le
  have hnonneg := h.available_nonneg
  rw [List.length_nil] at hlength
  have hempty : sr.r = sr.w := by omega
  have hrefill : sr.refill = 0 := by
    have hzero : sr.availableBytes = 0 := by omega
    rw [SectionReader.refill, hzero]
    rfl
  have hrest := h.rest_eq
  rw [hempty, Nat.sub_self, List.take_zero] at hrest
  refine ⟨SectionReader.unexpectedEOF, { sr with r := 0, w := 0 }, ?_, Nat.le_refl 0,
    Nat.zero_le _, hnonneg, h.available_lt, h.inside, hrest⟩
  unfold SectionReader.read
  rw [if_pos hempty]
  dsimp only
  exact if_pos hrefill

/-- Before the end of the section `Read` returns the next bytes. -/
theorem read_ne_nil (h : sr.Ahead env s rest) (hfault : ∀ k, env.fault k = none) {len : Nat}
    (hlen : 0 < len) (hne : rest ≠ []) :
    ∃ (n : Nat) (sr' : SectionReader) (s' : Session), 0 < n ∧ n ≤ len ∧
      sr.read env len s = (.ok (rest.take n), sr', s') ∧ sr'.Ahead env s' (rest.drop n) := by
  have hlength := h.length_eq
  have hpos := List.length_pos_iff.mpr hne
  unfold SectionReader.read
  split
  · next hempty =>
    obtain ⟨got, s', hread, hrefill, hahead⟩ := h.refill hempty hfault hne
    have hcleared : SectionReader.refill { sr with r := 0, w := 0 } = sr.refill := rfl
    dsimp only
    rw [hcleared, if_neg hrefill, hread]
    dsimp only
    obtain ⟨n, hn, htake, hafter⟩ := hahead.takeBuffered len
    dsimp only at hn
    refine ⟨n, _, s'.log (.feed got ((overwrite sr.cacheb got).take sr.refill)), by omega,
      by omega, ?_, hafter.of_pos_eq rfl⟩
    rw [← htake]
  · next hsome =>
    obtain ⟨n, hn, htake, hafter⟩ := h.takeBuffered len
    have hr := h.r_le
    refine ⟨n, _, s, by omega, by omega, ?_, hafter⟩
    rw [← htake]

/-- `ReadFull` in front of enough bytes. -/
theorem readFull (hfault : ∀ k, env.fault k = none) {calls len : Nat} (hcalls : len ≤ calls)
    (h : sr.Ahead env s rest) (hlen : len ≤ rest.length) :
    ∃ (sr' : SectionReader) (s' : Session),
      sr.readFull env calls len s = (.ok (rest.take len), sr', s') ∧
      sr'.Ahead env s' (rest.drop len) := by
  induction calls generalizing len sr s rest with
  | zero =>
      obtain rfl : len = 0 := by omega
      exact ⟨sr, s, rfl, h⟩
  | succ calls ih =>
      unfold SectionReader.readFull
      split
      · next hzero =>
        subst hzero
        exact ⟨sr, s, rfl, h⟩
      · next hzero =>
        have hne : rest ≠ [] := by
          rintro rfl
          rw [List.length_nil] at hlen
          omega
        obtain ⟨n, sr₁, s₁, hn, hle, hread, hahead⟩ :=
          h.read_ne_nil hfault (Nat.pos_of_ne_zero hzero) hne
        have htake : (rest.take n).length = n := by
          rw [List.length_take]
          omega
        have hrest : len - n ≤ (rest.drop n).length := by
          rw [List.length_drop]
          omega
        have hfewer : len - n ≤ calls := by omega
        obtain ⟨sr₂, s₂, hfull, hahead₂⟩ := ih hfewer hahead hrest
        rw [hread]
        dsimp only
        rw [htake, hfull]
        refine ⟨sr₂, s₂, ?_, ?_⟩
        · dsimp only
          rw [← List.take_add, Nat.add_sub_cancel' hle]
        · rw [List.drop_drop, Nat.add_sub_cancel' hle] at hahead₂
          exact hahead₂

/-- `ppmd_read` returns the next byte, and zero at the end of the section. -/
theorem readByte (hfault : ∀ k, env.fault k = none) (h : sr.Ahead env s rest) :
    ∃ (r : Except ErrorCode Bytes) (sr' : SectionReader) (s' : Session),
      sr.readFull env 1 1 s = (r, sr', s') ∧ ppmdRead r = rest.headD 0 ∧
      sr'.Ahead env s' rest.tail := by
  cases rest with
  | nil =>
      obtain ⟨ec, sr', hread, hahead⟩ := h.read_nil 1
      refine ⟨.error ec, sr', s, ?_, rfl, hahead⟩
      unfold SectionReader.readFull
      rw [if_neg Nat.one_ne_zero, hread]
  | cons b rest =>
      obtain ⟨sr', s', hread, hahead⟩ :=
        readFull hfault (Nat.le_refl 1) h (by rw [List.length_cons]; omega)
      exact ⟨_, sr', s', hread, rfl, hahead⟩

end SectionReader.Ahead

/-! ## The operations of the decoder -/

variable {env : Env} {c : PpmdCodec}

/-- The decoder is in `state`, and its reader in front of `rest`. -/
structure PpmdState.At (env : Env) (p : PpmdState c) (state : c.State) (rest : Bytes) :
    Prop where
  state_eq : p.state = state
  ahead : p.reader.Ahead env p.session rest

theorem PpmdState.At.byte {p : PpmdState c} {state : c.State} {rest : Bytes}
    (h : p.At env state rest) (hfault : ∀ k, env.fault k = none) {k : UInt8 → c.State}
    (hk : c.request state = .byte k) :
    ∃ p', ppmdRequestBody env c p = some (.next p') ∧ p'.At env (k (rest.headD 0)) rest.tail := by
  obtain ⟨r, sr', s', hread, hbyte, hahead⟩ := h.ahead.readByte hfault
  refine ⟨⟨k (ppmdRead r), sr', s'⟩, ?_, congrArg k hbyte, hahead⟩
  unfold ppmdRequestBody
  rw [h.state_eq, hk]
  dsimp only
  rw [hread]

theorem PpmdState.At.result {p : PpmdState c} {state state' : c.State} {rest : Bytes}
    {value : Int} (h : p.At env state rest) (hresult : c.request state = .result value state') :
    ppmdRequestBody env c p = some (.done (value, { p with state := state' })) ∧
      PpmdState.At env { p with state := state' } state' rest := by
  refine ⟨?_, rfl, h.ahead⟩
  unfold ppmdRequestBody
  rw [h.state_eq, hresult]

theorem Operation.call {state state' : c.State} {input rest : Bytes} {value : Int}
    (h : Operation c state input value state' rest) (hfault : ∀ k, env.fault k = none)
    {p : PpmdState c} (hp : p.At env state input) :
    ∃ bound p', p'.At env state' rest ∧
      ∀ fuel, bound < fuel → ppmdCall env c fuel p = some (value, p') := by
  induction h generalizing p with
  | result hresult =>
      obtain ⟨hbody, hat⟩ := hp.result hresult
      refine ⟨0, _, hat, fun fuel hfuel => ?_⟩
      obtain ⟨fuel, rfl⟩ := Nat.exists_eq_add_of_lt hfuel
      exact loop_done hbody
  | byte hk _ ih =>
      obtain ⟨p₁, hbody, hat₁⟩ := hp.byte hfault hk
      obtain ⟨bound, p', hat, hcall⟩ := ih hat₁
      refine ⟨bound + 1, p', hat, fun fuel hfuel => ?_⟩
      obtain ⟨fuel, rfl⟩ : ∃ f, fuel = f + 1 := ⟨fuel - 1, by omega⟩
      exact (loop_next hbody).trans (hcall fuel (by omega))

theorem operation_of_call (hfault : ∀ k, env.fault k = none) {fuel : Nat} {p p' : PpmdState c}
    {state : c.State} {rest : Bytes} {value : Int} (hp : p.At env state rest)
    (h : ppmdCall env c fuel p = some (value, p')) :
    ∃ state' rest', Operation c state rest value state' rest' ∧ p'.At env state' rest' := by
  unfold ppmdCall at h
  induction fuel generalizing p state rest with
  | zero => cases h
  | succ fuel ih =>
      cases hrequest : c.request state with
      | byte k =>
          obtain ⟨p₁, hbody, hat₁⟩ := hp.byte hfault hrequest
          rw [loop_next hbody] at h
          obtain ⟨state', rest', hop, hat⟩ := ih hat₁ h
          exact ⟨state', rest', .byte hrequest hop, hat⟩
      | result value' state' =>
          obtain ⟨hbody, hat⟩ := hp.result hrequest
          rw [loop_done hbody] at h
          cases h
          exact ⟨state', rest, .result hrequest, hat⟩

/-! ## One buffer -/

theorem ppmdFillBody_stop {fuel : Nat} {out : Bytes} {p p' : PpmdState c} {value : Int}
    (hcall : ppmdCall env c fuel p = some (value, p')) (hvalue : value < 0) :
    ppmdFillBody env c fuel (out, p) = some (.done (out, p')) := by
  unfold ppmdFillBody
  rw [hcall]
  exact if_pos hvalue

theorem ppmdFillBody_symbol {fuel : Nat} {out : Bytes} {p p' : PpmdState c} {value : Int}
    (hcall : ppmdCall env c fuel p = some (value, p')) (hvalue : 0 ≤ value) :
    ppmdFillBody env c fuel (out, p) =
      if (out ++ [UInt8.ofInt value]).length = ppmdBufferSize then
        some (.done (out ++ [UInt8.ofInt value], p'))
      else some (.next (out ++ [UInt8.ofInt value], p')) := by
  unfold ppmdFillBody
  rw [hcall]
  exact if_neg (by omega)

/-- Where the decoder is when `room` symbols were wanted: at its end if there are fewer. -/
def FilledAt (env : Env) (room : Nat) (symbols : List (UInt8 × Bytes)) (last : c.State)
    (lastRest : Bytes) (p : PpmdState c) : Prop :=
  symbols.length < room ∧ p.At env last lastRest ∨
    ∃ x state, symbols[room - 1]? = some x ∧ p.At env state x.2 ∧
      Symbols c state x.2 (symbols.drop room) last lastRest

theorem Symbols.fill {state last : c.State} {input lastRest : Bytes}
    {symbols : List (UInt8 × Bytes)} (h : Symbols c state input symbols last lastRest)
    (hfault : ∀ k, env.fault k = none) {p : PpmdState c} (hp : p.At env state input)
    {out : Bytes} {room : Nat} (hout : out.length + room = ppmdBufferSize)
    (hroom : 0 < room) :
    ∃ bound p', FilledAt env room symbols last lastRest p' ∧
      ∀ calls fuel, bound < calls → bound < fuel →
        loop (ppmdFillBody env c calls) fuel (out, p) =
          some (out ++ (symbols.take room).map Prod.fst, p') := by
  induction h generalizing p out room with
  | stop hop hvalue =>
      obtain ⟨bound, p', hat, hcall⟩ := hop.call hfault hp
      refine ⟨bound, p', .inl ⟨hroom, hat⟩, fun calls fuel hcalls hfuel => ?_⟩
      obtain ⟨fuel, rfl⟩ := Nat.exists_eq_add_of_lt hfuel
      rw [List.take_nil, List.map_nil, List.append_nil]
      exact loop_done (ppmdFillBody_stop (hcall calls hcalls) hvalue)
  | @symbol state state' last input rest lastRest value later hop hvalue hlater ih =>
      obtain ⟨bound, p₁, hat₁, hcall⟩ := hop.call hfault hp
      have hlength : (out ++ [UInt8.ofInt value]).length = out.length + 1 :=
        List.length_append
      obtain ⟨room, rfl⟩ : ∃ r, room = r + 1 := ⟨room - 1, by omega⟩
      have htake : out ++ (((UInt8.ofInt value, rest) :: later).take (room + 1)).map Prod.fst =
          out ++ [UInt8.ofInt value] ++ (later.take room).map Prod.fst := by
        rw [List.take_succ_cons, List.map_cons, List.append_assoc, List.singleton_append]
      rw [htake]
      rcases Nat.eq_zero_or_pos room with rfl | hpos
      · refine ⟨bound, p₁, .inr ⟨_, state', rfl, hat₁, hlater⟩,
          fun calls fuel hcalls hfuel => ?_⟩
        obtain ⟨fuel, rfl⟩ := Nat.exists_eq_add_of_lt hfuel
        rw [List.take_zero, List.map_nil, List.append_nil]
        have hfull : (out ++ [UInt8.ofInt value]).length = ppmdBufferSize := by omega
        exact loop_done ((ppmdFillBody_symbol (hcall calls hcalls) hvalue).trans (if_pos hfull))
      · obtain ⟨bound', p', hfilled, hfill⟩ :=
          @ih p₁ hat₁ (out ++ [UInt8.ofInt value]) room (by omega) hpos
        refine ⟨max bound bound' + 1, p', ?_, fun calls fuel hcalls hfuel => ?_⟩
        · rcases hfilled with ⟨hlt, hat⟩ | ⟨x, state'', hx, hat, hrest⟩
          · refine .inl ⟨?_, hat⟩
            rw [List.length_cons]
            omega
          · refine .inr ⟨x, state'', ?_, hat, hrest⟩
            obtain ⟨r, rfl⟩ : ∃ r, room = r + 1 := ⟨room - 1, by omega⟩
            exact hx
        · obtain ⟨fuel, rfl⟩ : ∃ f, fuel = f + 1 := ⟨fuel - 1, by omega⟩
          have hmore : (out ++ [UInt8.ofInt value]).length ≠ ppmdBufferSize := by omega
          have hbody := (ppmdFillBody_symbol (hcall calls (by omega)) hvalue).trans
            (if_neg hmore)
          exact (loop_next hbody).trans (hfill calls fuel (by omega) (by omega))

/-! ## All buffers -/

theorem written_of_fill {calls : Nat} {out out' : Bytes} {p p' : PpmdState c}
    (h : loop (ppmdFillBody env c calls) calls (out, p) = some (out', p')) :
    p'.session.written = p.session.written :=
  congrArg List.flatten (chunks_ppmdFill env c h)

theorem ppmdBody_nil {calls : Nat} {sum : Summator} {p p' : PpmdState c}
    (hfill : loop (ppmdFillBody env c calls) calls ([], p) = some ([], p')) :
    ppmdBody env c calls (sum, p) = some (.done (.finish sum p'.session)) := by
  unfold ppmdBody
  rw [hfill]
  rfl

/-- The state after the buffer was handed to the writer. -/
def PpmdState.handOver (out : Bytes) (p : PpmdState c) : PpmdState c :=
  { p with session := p.session.log (.write out) }

theorem PpmdState.At.handOver {p : PpmdState c} {state : c.State} {rest : Bytes}
    (h : p.At env state rest) (out : Bytes) : (p.handOver out).At env state rest :=
  ⟨h.state_eq, h.ahead.of_pos_eq rfl⟩

theorem written_handOver {calls : Nat} {p p' : PpmdState c} {out : Bytes}
    (hfill : loop (ppmdFillBody env c calls) calls ([], p) = some (out, p')) :
    (p'.handOver out).session.written = p.session.written ++ out := by
  rw [← written_of_fill hfill]
  exact Session.written_write env out p'.session

/-- A buffer is handed to the writer, and the input decides how it goes on. -/
theorem ppmdBody_ne_nil (haccepts : ∀ chunks, env.writer chunks = true) {calls : Nat}
    (sum : Summator) {p p' : PpmdState c} {out rest : Bytes} {state : c.State}
    (hfill : loop (ppmdFillBody env c calls) calls ([], p) = some (out, p')) (hout : out ≠ [])
    (hat : p'.At env state rest) :
    ppmdBody env c calls (sum, p) =
      some (if rest = [] then .done (.finish (sum.update out) (p'.handOver out).session)
        else .next (sum.update out, p'.handOver out)) := by
  have hwrite : p'.session.write env out = (true, p'.session.log (.write out)) := by
    rw [Session.write, haccepts]
  have hconsumed := hat.ahead.consumed_iff
  have hlength : out.length ≠ 0 := mt List.length_eq_zero_iff.mp hout
  have haccepted : ¬ (!true) = true := by decide
  unfold ppmdBody deliver
  rw [hfill]
  dsimp only
  rw [if_neg hlength, hwrite, if_neg haccepted]
  by_cases hrest : rest = []
  · rw [if_pos hrest, if_pos (hconsumed.mpr hrest)]
    rfl
  · rw [if_neg hrest, if_neg (mt hconsumed.mp hrest)]
    rfl

theorem ppmdBody_written (haccepts : ∀ chunks, env.writer chunks = true) {calls : Nat}
    {sum : Summator} {p p' : PpmdState c} {out : Bytes}
    {step : Step (Summator × PpmdState c) Outcome}
    (hfill : loop (ppmdFillBody env c calls) calls ([], p) = some (out, p'))
    (hbody : ppmdBody env c calls (sum, p) = some step) :
    step.Sat (fun l => l.2.session.written = p.session.written ++ out)
      (fun o => o.session.written = p.session.written ++ out) := by
  have hwrite : p'.session.write env out = (true, p'.session.log (.write out)) := by
    rw [Session.write, haccepts]
  have hwritten := Session.written_write env out p'.session
  rw [hwrite, written_of_fill hfill] at hwritten
  unfold ppmdBody deliver at hbody
  rw [hfill] at hbody
  dsimp only at hbody
  split at hbody
  · next hlength =>
    cases hbody
    dsimp only [Step.Sat]
    rw [Outcome.finish_session, List.length_eq_zero_iff.mp hlength, List.append_nil]
    exact written_of_fill hfill
  · have haccepted : ¬ (!true) = true := by decide
    rw [hwrite, if_neg haccepted] at hbody
    split at hbody <;> cases hbody
    · dsimp only [Step.Sat]
      rw [Outcome.finish_session]
      exact hwritten
    · exact hwritten

theorem written_prefix (haccepts : ∀ chunks, env.writer chunks = true) {calls fuel : Nat}
    {l : Summator × PpmdState c} {o : Outcome}
    (h : loop (ppmdBody env c calls) fuel l = some o) :
    l.2.session.written <+: o.session.written := by
  refine loop_spec (I := fun l' => l.2.session.written <+: l'.2.session.written)
    (Q := fun o => l.2.session.written <+: o.session.written) ?_ (List.prefix_refl _) h
  rintro ⟨sum, p⟩ step hl hstep
  cases hfill : loop (ppmdFillBody env c calls) calls ([], p) with
  | none =>
      unfold ppmdBody at hstep
      rw [hfill] at hstep
      cases hstep
  | some filled =>
      obtain ⟨out, p'⟩ := filled
      have hgrown := hl.trans (List.prefix_append p.session.written out)
      refine (ppmdBody_written haccepts hfill hstep).mono ?_ ?_
      · intro l' hl'
        exact hl' ▸ hgrown
      · intro o ho
        exact ho ▸ hgrown

/-- If the decoder has not ended the buffer is not empty. -/
theorem fill_ne_nil (hfault : ∀ k, env.fault k = none) {calls : Nat} {p p' : PpmdState c}
    {state : c.State} {rest out : Bytes} (hp : p.At env state rest)
    (hgoes : ¬ ∃ value state' rest', Operation c state rest value state' rest' ∧ value < 0)
    (hfill : loop (ppmdFillBody env c calls) calls ([], p) = some (out, p')) : out ≠ [] := by
  refine loop_spec (I := fun l => l.1 ≠ [] ∨ l = ([], p)) (Q := fun l => l.1 ≠ []) ?_
    (.inr rfl) hfill
  rintro ⟨out, q⟩ step hl hstep
  unfold ppmdFillBody at hstep
  split at hstep
  · cases hstep
  next sym q' hcall =>
  dsimp only at hstep
  split at hstep
  · next hsym =>
    cases hstep
    rcases hl with hl | hl
    · exact hl
    · cases hl
      obtain ⟨state', rest', hop, -⟩ := operation_of_call hfault hp hcall
      exact absurd ⟨sym, state', rest', hop, hsym⟩ hgoes
  · have hne : out ++ [UInt8.ofInt sym] ≠ [] := List.append_ne_nil_of_right_ne_nil _ nofun
    split at hstep <;> cases hstep
    · exact hne
    · exact .inl hne

/-- The rounds end, with `bytes` behind what was handed to the writer before. -/
def HandsOver (env : Env) (c : PpmdCodec) (calls fuel : Nat) (l : Summator × PpmdState c)
    (bytes : Bytes) : Prop :=
  ∃ o, loop (ppmdBody env c calls) fuel l = some o ∧
    o.session.written = l.2.session.written ++ bytes

theorem handsOver_done_iff {calls fuel : Nat} {l : Summator × PpmdState c} {sum : Summator}
    {s : Session} {out bytes : Bytes}
    (hbody : ppmdBody env c calls l = some (.done (.finish sum s)))
    (hwritten : s.written = l.2.session.written ++ out) :
    HandsOver env c calls (fuel + 1) l bytes ↔ out = bytes := by
  unfold HandsOver
  rw [loop_done hbody]
  constructor
  · rintro ⟨o, ho, heq⟩
    cases ho
    rw [Outcome.finish_session, hwritten] at heq
    exact List.append_cancel_left heq
  · rintro rfl
    refine ⟨_, rfl, ?_⟩
    rw [Outcome.finish_session, hwritten]

theorem handsOver_next_iff {calls : Nat} {l l' : Summator × PpmdState c} {out : Bytes}
    (fuel : Nat) (bytes : Bytes) (hbody : ppmdBody env c calls l = some (.next l'))
    (hwritten : l'.2.session.written = l.2.session.written ++ out) :
    HandsOver env c calls (fuel + 1) l (out ++ bytes) ↔
      HandsOver env c calls fuel l' bytes := by
  unfold HandsOver
  rw [loop_next hbody, hwritten, List.append_assoc]

theorem Symbols.buffer {state last : c.State} {input lastRest : Bytes}
    {symbols : List (UInt8 × Bytes)} (h : Symbols c state input symbols last lastRest)
    (hfault : ∀ k, env.fault k = none) {p : PpmdState c} (hp : p.At env state input) :
    ∃ bound p', FilledAt env ppmdBufferSize symbols last lastRest p' ∧
      ∀ calls, bound < calls → loop (ppmdFillBody env c calls) calls ([], p) =
        some ((symbols.take ppmdBufferSize).map Prod.fst, p') := by
  have hempty : ([] : Bytes).length + ppmdBufferSize = ppmdBufferSize := Nat.zero_add _
  obtain ⟨bound, p', hfilled, hfill⟩ := h.fill hfault hp hempty ppmdBufferSize_pos
  exact ⟨bound, p', hfilled, fun calls hcalls => hfill calls calls hcalls hcalls⟩

theorem handsOver_nil_iff (hfault : ∀ k, env.fault k = none)
    (haccepts : ∀ chunks, env.writer chunks = true) (sum : Summator) {p : PpmdState c}
    {state : c.State} {rest : Bytes} (hp : p.At env state rest) :
    ∃ bound, ∀ calls fuel, bound < calls → bound < fuel →
      (HandsOver env c calls fuel (sum, p) [] ↔
        ∃ value state' rest', Operation c state rest value state' rest' ∧ value < 0) := by
  by_cases hends : ∃ value state' rest', Operation c state rest value state' rest' ∧ value < 0
  · obtain ⟨value, state', rest', hop, hvalue⟩ := hends
    obtain ⟨bound, p', -, hfill⟩ := (Symbols.stop hop hvalue).buffer hfault hp
    refine ⟨bound, fun calls fuel hcalls hfuel =>
      iff_of_true ?_ ⟨value, state', rest', hop, hvalue⟩⟩
    obtain ⟨fuel, rfl⟩ := Nat.exists_eq_add_of_lt hfuel
    refine (handsOver_done_iff (ppmdBody_nil (hfill calls hcalls)) ?_).mpr rfl
    rw [List.append_nil]
    exact written_of_fill (hfill calls hcalls)
  · refine ⟨0, fun calls fuel hcalls hfuel => iff_of_false ?_ hends⟩
    rintro ⟨o, ho, hwritten⟩
    obtain ⟨fuel, rfl⟩ : ∃ f, fuel = f + 1 := ⟨fuel - 1, by omega⟩
    cases hfill : loop (ppmdFillBody env c calls) calls ([], p) with
    | none =>
        unfold loop ppmdBody at ho
        rw [hfill] at ho
        cases ho
    | some filled =>
        obtain ⟨out, p'⟩ := filled
        have hne := fill_ne_nil hfault hp hends hfill
        have hgrown : p.session.written ++ out <+: o.session.written := by
          cases hbody : ppmdBody env c calls (sum, p) with
          | none =>
              unfold loop at ho
              rw [hbody] at ho
              cases ho
          | some step =>
              have hround := ppmdBody_written haccepts hfill hbody
              cases step with
              | done r =>
                  rw [loop_done hbody] at ho
                  cases ho
                  exact hround ▸ List.prefix_refl _
              | next l =>
                  rw [loop_next hbody] at ho
                  have hlater := written_prefix haccepts ho
                  exact hround ▸ hlater
        have hlength := hgrown.length_le
        have hpos := List.length_pos_iff.mpr hne
        rw [hwritten, List.length_append, List.append_nil] at hlength
        dsimp only at hlength
        omega

/-- The rounds hand over all symbols exactly if no buffer is taken for the last one too
early, and the decoder stays at its end. -/
theorem Symbols.handsOver_iff (hfault : ∀ k, env.fault k = none)
    (haccepts : ∀ chunks, env.writer chunks = true) {last : c.State} {lastRest : Bytes}
    {symbols : List (UInt8 × Bytes)} {state : c.State} {input : Bytes}
    (h : Symbols c state input symbols last lastRest) {p : PpmdState c}
    (hp : p.At env state input) (sum : Summator) :
    ∃ bound, ∀ calls fuel, bound < calls → bound < fuel →
      (HandsOver env c calls fuel (sum, p) (symbols.map Prod.fst) ↔
        InputLeft symbols ∧ EndsAgain c symbols last lastRest) := by
  induction hlength : symbols.length using Nat.strong_induction_on
    generalizing symbols state input p sum with
  | _ n ih =>
  obtain ⟨bound, p', hfilled, hfill⟩ := h.buffer hfault hp
  rcases hfilled with ⟨hlt, hat⟩ | ⟨x, state', hx, hat, hrest⟩
  · -- The decoder ends in this buffer.
    rw [List.take_of_length_le hlt.le] at hfill
    have hleft := inputLeft_of_length_le hlt.le
    by_cases hnone : symbols = []
    · subst hnone
      refine ⟨bound, fun calls fuel hcalls hfuel =>
        iff_of_true ?_ ⟨hleft, fun hmod => absurd (Nat.zero_mod _) hmod⟩⟩
      obtain ⟨fuel, rfl⟩ := Nat.exists_eq_add_of_lt hfuel
      refine (handsOver_done_iff (ppmdBody_nil (hfill calls hcalls)) ?_).mpr rfl
      rw [List.map_nil, List.append_nil]
      exact written_of_fill (hfill calls hcalls)
    · have hout : symbols.map Prod.fst ≠ [] := mt List.map_eq_nil_iff.mp hnone
      have hmod : symbols.length % ppmdBufferSize ≠ 0 := by
        rw [Nat.mod_eq_of_lt hlt]
        exact mt List.length_eq_zero_iff.mp hnone
      by_cases hempty : lastRest = []
      · refine ⟨bound, fun calls fuel hcalls hfuel =>
          iff_of_true ?_ ⟨hleft, fun _ hne => absurd hempty hne⟩⟩
        obtain ⟨fuel, rfl⟩ := Nat.exists_eq_add_of_lt hfuel
        have hbody := ppmdBody_ne_nil haccepts sum (hfill calls hcalls) hout hat
        rw [if_pos hempty] at hbody
        exact (handsOver_done_iff hbody (written_handOver (hfill calls hcalls))).mpr rfl
      · obtain ⟨bound', hagain⟩ := handsOver_nil_iff hfault haccepts
          (sum.update (symbols.map Prod.fst)) (hat.handOver (symbols.map Prod.fst))
        refine ⟨max bound bound' + 1, fun calls fuel hcalls hfuel => ?_⟩
        obtain ⟨fuel, rfl⟩ : ∃ f, fuel = f + 1 := ⟨fuel - 1, by omega⟩
        have hfill' := hfill calls (by omega)
        have hbody := ppmdBody_ne_nil haccepts sum hfill' hout hat
        rw [if_neg hempty] at hbody
        have hnext := handsOver_next_iff fuel [] hbody (written_handOver hfill')
        rw [List.append_nil] at hnext
        rw [hnext, hagain calls fuel (by omega) (by omega)]
        exact ⟨fun hends => ⟨hleft, fun _ _ => hends⟩, fun hends => hends.2 hmod hempty⟩
  · -- The buffer is full.
    have hle : ppmdBufferSize ≤ symbols.length := by
      have hlt := (List.getElem?_eq_some_iff.mp hx).1
      omega
    have hpos := ppmdBufferSize_pos
    have hout : (symbols.take ppmdBufferSize).map Prod.fst ≠ [] := by
      rw [← List.length_pos_iff, List.length_map, List.length_take]
      omega
    have hsplit : (symbols.take ppmdBufferSize).map Prod.fst ++
        (symbols.drop ppmdBufferSize).map Prod.fst = symbols.map Prod.fst := by
      rw [← List.map_append, List.take_append_drop]
    have hmod : (symbols.drop ppmdBufferSize).length % ppmdBufferSize =
        symbols.length % ppmdBufferSize := by
      rw [List.length_drop, ← Nat.mod_eq_sub_mod hle]
    by_cases hempty : x.2 = []
    · refine ⟨bound, fun calls fuel hcalls hfuel => ?_⟩
      obtain ⟨fuel, rfl⟩ := Nat.exists_eq_add_of_lt hfuel
      have hbody := ppmdBody_ne_nil haccepts sum (hfill calls hcalls) hout hat
      rw [if_pos hempty] at hbody
      rw [handsOver_done_iff hbody (written_handOver (hfill calls hcalls)), ← hsplit,
        List.self_eq_append_right, List.map_eq_nil_iff, List.drop_eq_nil_iff]
      constructor
      · intro hge
        have heq : symbols.length = ppmdBufferSize := Nat.le_antisymm hge hle
        exact ⟨inputLeft_of_length_le hge, fun h => absurd (heq ▸ Nat.mod_self _) h⟩
      · rintro ⟨hleft, -⟩
        by_contra hgt
        exact ((inputLeft_drop_iff (Nat.lt_of_not_ge hgt) hx).mp hleft).1 hempty
    · have hleft : InputLeft symbols ↔ InputLeft (symbols.drop ppmdBufferSize) := by
        rcases Nat.eq_or_lt_of_le hle with heq | hlt
        · refine iff_of_true (inputLeft_of_length_le heq.ge) (inputLeft_of_length_le ?_)
          rw [List.length_drop]
          omega
        · rw [inputLeft_drop_iff hlt hx]
          exact and_iff_right hempty
      have hends : EndsAgain c symbols last lastRest ↔
          EndsAgain c (symbols.drop ppmdBufferSize) last lastRest := by
        unfold EndsAgain
        rw [hmod]
      have hshorter : (symbols.drop ppmdBufferSize).length < n := by
        rw [List.length_drop]
        omega
      obtain ⟨bound', hlater⟩ := ih _ hshorter hrest
        (hat.handOver ((symbols.take ppmdBufferSize).map Prod.fst))
        (sum.update ((symbols.take ppmdBufferSize).map Prod.fst)) rfl
      refine ⟨max bound bound' + 1, fun calls fuel hcalls hfuel => ?_⟩
      obtain ⟨fuel, rfl⟩ : ∃ f, fuel = f + 1 := ⟨fuel - 1, by omega⟩
      have hfill' := hfill calls (by omega)
      have hbody := ppmdBody_ne_nil haccepts sum hfill' hout hat
      rw [if_neg hempty] at hbody
      rw [← hsplit, handsOver_next_iff fuel _ hbody (written_handOver hfill'),
        hlater calls fuel (by omega) (by omega), hleft, hends]

/-! ## The whole entry -/

/-- The number in the first two bytes. -/
def ppmdParametersOf (lo hi : UInt8) : Nat :=
  lo.toNat + 256 * hi.toNat

/-- The decoder for the parameters. -/
def PpmdCodec.initial (c : PpmdCodec) (val : Nat) : c.State :=
  c.start (val % 16 + 1) (val / 16 % 256 + 1) (val / 4096)

/-- The entry lies in the file with valid parameters in front of `data`, and there the
decoder starts in `state` and leaves `input`. -/
structure PpmdStarts (env : Env) (c : PpmdCodec) (file : File) (s : Session) (lo hi : UInt8)
    (data : Bytes) (state : c.State) (input : Bytes) : Prop where
  size_lt : file.compressedSize.toNat < 2 ^ 63
  inside : s.pos + file.compressedSize.toNat ≤ env.content.bytes.length
  section_eq : (env.content.bytes.drop s.pos).take file.compressedSize.toNat = lo :: hi :: data
  valid : ppmdParametersInvalid (ppmdParametersOf lo hi) = false
  allocated : c.allocated = true
  ready : ∃ value, value ≠ 0 ∧
    Operation c (c.initial (ppmdParametersOf lo hi)) data value state input

variable {file : File} {s : Session} {lo hi : UInt8} {data input : Bytes} {state : c.State}

theorem PpmdStarts.ahead (h : PpmdStarts env c file s lo hi data state input) (cache : Bytes) :
    SectionReader.Ahead env { cacheb := cache, size := file.compressedSize.toInt64.toInt } s
      (lo :: hi :: data) := by
  have hlt := h.size_lt
  have hsize : file.compressedSize.toInt64.toInt = file.compressedSize.toNat := by
    have hint : file.compressedSize.toInt64.toInt = file.compressedSize.toBitVec.toInt := rfl
    have hnat : file.compressedSize.toNat = file.compressedSize.toBitVec.toNat := rfl
    rw [hint, BitVec.toInt_eq_toNat_cond, ← hnat, if_pos (by omega)]
  have havailable : SectionReader.availableBytes
      { cacheb := cache, size := file.compressedSize.toInt64.toInt } =
      file.compressedSize.toNat := by
    rw [SectionReader.availableBytes]
    dsimp only
    rw [hsize, Int.sub_zero]
  refine ⟨Nat.le_refl 0, Nat.zero_le _, ?_, ?_, ?_, ?_⟩
  · rw [havailable]
    exact Int.natCast_nonneg _
  · rw [havailable]
    omega
  · rw [havailable]
    exact h.inside
  · rw [havailable]
    exact h.section_eq

/-- What is left of `decompressPpmd` are the rounds. -/
theorem PpmdStarts.rounds (h : PpmdStarts env c file s lo hi data state input)
    (hfault : ∀ k, env.fault k = none) (cache : Bytes) :
    ∃ bound p, p.At env state input ∧ p.session.written = s.written ∧
      ∀ fuel, bound < fuel → decompressPpmd env c file cache fuel s =
        loop (ppmdBody env c fuel) fuel ({ target := file.crc32Value.toBitVec }, p) := by
  obtain ⟨value, hvalue, hop⟩ := h.ready
  have htwo : 2 ≤ (lo :: hi :: data).length := by
    rw [List.length_cons, List.length_cons]
    omega
  obtain ⟨sr', s', hread, hahead⟩ := (h.ahead cache).readFull hfault (Nat.le_refl 2) htwo
  have hchunks := chunks_sectionReadFull env 2 2
    { cacheb := cache, size := file.compressedSize.toInt64.toInt } s
  rw [hread] at hchunks
  have hp : PpmdState.At env
      (⟨c.initial (ppmdParametersOf lo hi), sr', s'⟩ : PpmdState c) _ data := ⟨rfl, hahead⟩
  obtain ⟨bound, p, hat, hcall⟩ := hop.call hfault hp
  refine ⟨bound, p, hat, ?_, fun fuel hfuel => ?_⟩
  · have hwritten := chunks_ppmdCall env c (hcall (bound + 1) (Nat.lt_succ_self bound))
    exact congrArg List.flatten (hwritten.trans hchunks)
  · have hallocated : ¬ (!c.allocated) = true := by
      rw [h.allocated]
      nofun
    have hvalid : ¬ ppmdParametersInvalid (ppmdParametersOf lo hi) = true := by
      rw [h.valid]
      nofun
    have hval : ((List.take 2 (lo :: hi :: data)).getD 0 0).toNat +
        256 * ((List.take 2 (lo :: hi :: data)).getD 1 0).toNat = ppmdParametersOf lo hi := rfl
    have hready := hcall fuel hfuel
    unfold PpmdCodec.initial at hready
    unfold decompressPpmd
    dsimp only
    rw [hread]
    dsimp only
    rw [hval, if_neg hvalid, if_neg hallocated, hready]
    exact if_neg hvalue

/-- The symbols of an entry are handed over exactly if input is left at the end of each
full buffer but the last one, and a decoder that has ended before its input ends again. -/
theorem decompressPpmd_written_iff (hfault : ∀ k, env.fault k = none)
    (haccepts : ∀ chunks, env.writer chunks = true)
    (hstarts : PpmdStarts env c file s lo hi data state input) {last : c.State} {rest : Bytes}
    {symbols : List (UInt8 × Bytes)} (hsymbols : Symbols c state input symbols last rest)
    (cache : Bytes) :
    (∃ bound, ∀ fuel, bound < fuel → ∃ o, decompressPpmd env c file cache fuel s = some o ∧
        o.session.written = s.written ++ symbols.map Prod.fst) ↔
      InputLeft symbols ∧ EndsAgain c symbols last rest := by
  obtain ⟨bound, p, hat, hwritten, hrounds⟩ := hstarts.rounds hfault cache
  obtain ⟨bound', hiff⟩ := hsymbols.handsOver_iff hfault haccepts hat
    { target := file.crc32Value.toBitVec }
  rw [← hwritten]
  constructor
  · rintro ⟨bound'', h⟩
    have hfuel := h (max (max bound bound') bound'' + 1) (by omega)
    rw [hrounds _ (by omega)] at hfuel
    exact (hiff _ _ (by omega) (by omega)).mp hfuel
  · intro h
    refine ⟨max bound bound', fun fuel hfuel => ?_⟩
    rw [hrounds fuel (by omega)]
    exact (hiff fuel fuel (by omega) (by omega)).mpr h

/-- A decoder that yields `n` symbols without any input. -/
def countingCodec (n : Nat) : PpmdCodec where
  allocated := true
  State := Nat
  start _ _ _ := n + 1
  request
    | 0 => .result (-1) 0
    | m + 1 => .result 1 m

theorem symbols_countingCodec (n m : Nat) (input : Bytes) :
    Symbols (countingCodec n) m input (List.replicate m (1, input)) (0 : Nat) input := by
  induction m with
  | zero =>
      have hend : Operation (countingCodec n) (0 : Nat) input (-1) (0 : Nat) input := .result rfl
      exact .stop hend (by decide)
  | succ m ih =>
      have hone : Operation (countingCodec n) (m + 1 : Nat) input 1 m input := .result rfl
      exact .symbol hone (by decide) ih

theorem length_parameters_lt : ([1, 0] : Bytes).length < 2 ^ 63 := by
  decide

def parametersEnv : Env where
  content := ⟨[1, 0], length_parameters_lt⟩
  fault _ := none
  writer _ := true

def parametersEntry : File where
  compressedSize := 2
  method := zipPPMd

theorem ppmdStarts_countingCodec (n : Nat) :
    PpmdStarts parametersEnv (countingCodec n) parametersEntry ⟨0, 0, []⟩ 1 0 [] (n : Nat) []
    where
  size_lt := by decide
  inside := by decide
  section_eq := rfl
  valid := by decide
  allocated := rfl
  ready := ⟨1, by decide, .result rfl⟩

theorem decompressPpmd_written_three :
    ∃ bound, ∀ fuel, bound < fuel → ∃ o,
      decompressPpmd parametersEnv (countingCodec 3) parametersEntry [] fuel ⟨0, 0, []⟩ =
        some o ∧ o.session.written = [1, 1, 1] := by
  refine (decompressPpmd_written_iff (fun _ => rfl) (fun _ => rfl) (ppmdStarts_countingCodec 3)
    (symbols_countingCodec 3 3 []) []).mpr ⟨inputLeft_of_length_le (by decide), ?_⟩
  exact fun _ hne => absurd rfl hne

/-- The symbol behind the first full buffer is lost when no input is left. -/
theorem decompressPpmd_countingCodec_loses :
    ¬ ∃ bound, ∀ fuel, bound < fuel → ∃ o,
      decompressPpmd parametersEnv (countingCodec (ppmdBufferSize + 1)) parametersEntry [] fuel
          ⟨0, 0, []⟩ = some o ∧
        o.session.written = List.replicate (ppmdBufferSize + 1) 1 := by
  rintro ⟨bound, h⟩
  obtain ⟨bound₁, p, hat, hwritten, hrounds⟩ :=
    (ppmdStarts_countingCodec (ppmdBufferSize + 1)).rounds (fun _ => rfl) []
  obtain ⟨bound₂, hiff⟩ := (symbols_countingCodec (ppmdBufferSize + 1) (ppmdBufferSize + 1)
    []).handsOver_iff (fun _ => rfl) (fun _ => rfl) hat { target := 0 }
  obtain ⟨o, ho, hall⟩ := h (max (max bound bound₁) bound₂ + 1) (by omega)
  rw [hrounds _ (by omega)] at ho
  have hnone : p.session.written = [] := hwritten
  have hover : HandsOver parametersEnv (countingCodec (ppmdBufferSize + 1))
      (max (max bound bound₁) bound₂ + 1) (max (max bound bound₁) bound₂ + 1)
      ({ target := 0 }, p)
      ((List.replicate (ppmdBufferSize + 1) ((1 : UInt8), ([] : Bytes))).map Prod.fst) := by
    refine ⟨o, ho, ?_⟩
    rw [hall, hnone, List.map_replicate, List.nil_append]
  have hleft := ((hiff _ _ (by omega) (by omega)).mp hover).1
  have hlength : (List.replicate (ppmdBufferSize + 1) ((1 : UInt8), ([] : Bytes))).length =
      ppmdBufferSize + 1 := List.length_replicate
  have hpos := ppmdBufferSize_pos
  refine hleft 1 (1, []) Nat.one_pos (by omega) ?_ rfl
  rw [List.getElem?_replicate, if_pos (by omega)]

end Baulk.Zip
