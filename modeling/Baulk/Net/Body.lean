import Baulk.Net.WinGet

/-!
# The body of a response

`recv_completely` reads the body into a buffer.  With a declared length it reads
until that many bytes are there, and does not look at whether any are to come;
without one it reads until none are available, or until there are enough.
-/

namespace Baulk.Net

/-! ## Rounds -/

/-- What every call finds after the server has closed the connection. -/
def closed : Round :=
  .received 0 [] (Nat.zero_le _)

/-- The bytes that a round has for the reader. -/
def Round.body : Round → Bytes
  | .unavailable _ => []
  | .unread _ _ => []
  | .received _ bytes _ => bytes

/-- One of the two calls fails. -/
def Round.Fails : Round → Prop
  | .unavailable _ => True
  | .unread _ _ => True
  | .received _ _ _ => False

/-- The server has announced something, and the read has worked. -/
def Round.GoesOn : Round → Prop
  | .unavailable _ => False
  | .unread _ _ => False
  | .received announced _ _ => announced ≠ 0

/-- What the server sends. -/
def bodyBytes (rounds : List Round) : Bytes :=
  rounds.flatMap Round.body

/-! ## Reading -/

/-- `WinHttpReadData` into the buffer. -/
def fill (buffer : Bytes) (offset : Nat) (bytes : Bytes) : Bytes :=
  buffer.take offset ++ bytes ++ buffer.drop (offset + bytes.length)

def resize (buffer : Bytes) (n : Nat) : Bytes :=
  buffer.take n ++ List.replicate (n - buffer.length) 0

/-- `buffer.resize`, if the buffer is too small. -/
def grow (buffer : Bytes) (n : Nat) : Bytes :=
  if buffer.length < n then resize buffer n else buffer

/-- The loop for a declared length. -/
def recvDeclared (total : Nat) : Nat → List Round → Bytes → Nat →
    Option (Except ErrorCode Nat × Bytes)
  | 0, _, _, _ => none
  | fuel + 1, rounds, buffer, downloadSize =>
      match rounds.headD closed with
      | .unavailable e => some (.error (e.toErrorCode []), buffer)
      | .unread _ e => some (.error (e.toErrorCode []), buffer)
      | .received announced bytes _ =>
          let recvSize := min (total - downloadSize) announced.toNat
          let read := bytes.take recvSize
          let buffer := fill buffer downloadSize read
          let downloadSize := downloadSize + read.length
          if downloadSize < total then
            recvDeclared total fuel rounds.tail buffer downloadSize
          else some (.ok downloadSize, buffer)

/-- The loop without one. -/
def recvChunks (maxBodySize : Nat) : Nat → List Round → Bytes → Nat →
    Option (Except ErrorCode Nat × Bytes)
  | 0, _, _, _ => none
  | fuel + 1, rounds, buffer, downloadSize =>
      match rounds.headD closed with
      | .unavailable e => some (.error (e.toErrorCode []), buffer)
      | .unread announced e =>
          if announced = 0 then some (.ok downloadSize, buffer)
          else some (.error (e.toErrorCode []), buffer)
      | .received announced bytes _ =>
          if announced = 0 then some (.ok downloadSize, buffer)
          else
            let buffer := grow buffer (downloadSize + announced.toNat)
            let buffer := fill buffer downloadSize bytes
            let downloadSize := downloadSize + bytes.length
            if downloadSize < maxBodySize then
              recvChunks maxBodySize fuel rounds.tail buffer downloadSize
            else some (.ok downloadSize, buffer)

/-- `recv_completely`: its result and the buffer, or `none` if it takes more
rounds. -/
def recvCompletely (fuel : Nat) (len : Int64) (buffer : Bytes)
    (maxBodySize : UInt64) (rounds : List Round) :
    Option (Except ErrorCode Nat × Bytes) :=
  if len = 0 then some (.ok 0, buffer)
  else if 0 < len then
    let total := min maxBodySize.toNat len.toInt.toNat
    recvDeclared total fuel rounds (resize buffer total) 0
  else recvChunks maxBodySize.toNat fuel rounds (resize buffer (256 * 1024)) 0

/-! ## What the body is for -/

/-- The call returns.  If it succeeds, the buffer begins with the bytes that were
read, which are not more than allowed and not less than declared. -/
def BodyRight (len : Int64) (buffer : Bytes) (maxBodySize : UInt64)
    (rounds : List Round) : Prop :=
  ∃ fuel result, recvCompletely fuel len buffer maxBodySize rounds = some result ∧
    ∀ n, result.1 = .ok n →
      n ≤ (bodyBytes rounds).length ∧ result.2.take n = (bodyBytes rounds).take n ∧
        n ≤ maxBodySize.toNat ∧
        (0 ≤ len → min len.toInt.toNat maxBodySize.toNat ≤ n)

/-- With a declared length, a call fails or there are enough bytes. -/
def Arrives (total : Nat) (rounds : List Round) : Prop :=
  (∃ round ∈ rounds, round.Fails) ∨ total ≤ (bodyBytes rounds).length

/-- There are some rounds that bring less than `maxBodySize` bytes, if there are
any, and then one with which it is more. -/
def Overshoots (maxBodySize start : Nat) (rounds : List Round) : Prop :=
  ∃ front round back, rounds = front ++ round :: back ∧
    (∀ r ∈ front, r.GoesOn) ∧ round.GoesOn ∧
    (front ≠ [] → start + (bodyBytes front).length < maxBodySize) ∧
    maxBodySize < start + (bodyBytes front).length + round.body.length

/-! ## Filling the buffer -/

theorem take_fill (buffer bytes : Bytes) {offset : Nat}
    (h : offset ≤ buffer.length) :
    (fill buffer offset bytes).take (offset + bytes.length) =
      buffer.take offset ++ bytes := by
  unfold fill
  rw [List.take_append_of_le_length, List.take_of_length_le]
  · simp only [List.length_append, List.length_take]
    omega
  · simp only [List.length_append, List.length_take]
    omega

theorem length_fill (buffer bytes : Bytes) {offset : Nat}
    (h : offset + bytes.length ≤ buffer.length) :
    (fill buffer offset bytes).length = buffer.length := by
  unfold fill
  simp only [List.length_append, List.length_take, List.length_drop]
  omega

theorem length_resize (buffer : Bytes) (n : Nat) : (resize buffer n).length = n := by
  unfold resize
  simp only [List.length_append, List.length_take, List.length_replicate]
  omega

theorem take_resize {buffer : Bytes} {k n : Nat} (hk : k ≤ buffer.length)
    (hn : k ≤ n) : (resize buffer n).take k = buffer.take k := by
  unfold resize
  rw [List.take_append_of_le_length, List.take_take, Nat.min_eq_left hn]
  rw [List.length_take]
  exact Nat.le_min.mpr ⟨hn, hk⟩

theorem le_length_grow (buffer : Bytes) (n : Nat) : n ≤ (grow buffer n).length := by
  unfold grow
  by_cases h : buffer.length < n
  · rw [if_pos h, length_resize]
  · rw [if_neg h]
    exact not_lt.mp h

theorem take_grow {buffer : Bytes} {k n : Nat} (hk : k ≤ buffer.length)
    (hn : k ≤ n) : (grow buffer n).take k = buffer.take k := by
  unfold grow
  by_cases h : buffer.length < n
  · rw [if_pos h, take_resize hk hn]
  · rw [if_neg h]

theorem bodyBytes_cons (round : Round) (rounds : List Round) :
    bodyBytes (round :: rounds) = round.body ++ bodyBytes rounds :=
  List.flatMap_cons

theorem bodyBytes_head (rounds : List Round) :
    bodyBytes rounds = (rounds.headD closed).body ++ bodyBytes rounds.tail := by
  cases rounds with
  | nil => rfl
  | cons round rounds => exact bodyBytes_cons round rounds

/-! ## With a declared length -/

theorem recvDeclared_received {total fuel : Nat} {rounds : List Round}
    {buffer bytes : Bytes} {downloadSize : Nat} {announced : UInt32}
    {le : bytes.length ≤ announced.toNat}
    (h : rounds.headD closed = .received announced bytes le) :
    recvDeclared total (fuel + 1) rounds buffer downloadSize =
      let read := bytes.take (total - downloadSize)
      if downloadSize + read.length < total then
        recvDeclared total fuel rounds.tail (fill buffer downloadSize read)
          (downloadSize + read.length)
      else some (.ok (downloadSize + read.length), fill buffer downloadSize read) := by
  have hread : bytes.take (min (total - downloadSize) announced.toNat) =
      bytes.take (total - downloadSize) := by
    rw [← List.take_take, List.take_of_length_le le]
  rw [recvDeclared, h]
  simp only [hread]

theorem recvDeclared_again {total fuel : Nat} {rounds : List Round}
    {buffer bytes : Bytes} {downloadSize : Nat} {announced : UInt32}
    {le : bytes.length ≤ announced.toNat}
    (h : rounds.headD closed = .received announced bytes le)
    (hless : downloadSize + (bytes.take (total - downloadSize)).length < total) :
    recvDeclared total (fuel + 1) rounds buffer downloadSize =
      recvDeclared total fuel rounds.tail
        (fill buffer downloadSize (bytes.take (total - downloadSize)))
        (downloadSize + (bytes.take (total - downloadSize)).length) := by
  rw [recvDeclared_received h]
  simp only
  rw [if_pos hless]

theorem recvDeclared_done {total fuel : Nat} {rounds : List Round}
    {buffer bytes : Bytes} {downloadSize : Nat} {announced : UInt32}
    {le : bytes.length ≤ announced.toNat}
    (h : rounds.headD closed = .received announced bytes le)
    (hmore : ¬ downloadSize + (bytes.take (total - downloadSize)).length < total) :
    recvDeclared total (fuel + 1) rounds buffer downloadSize =
      some (.ok (downloadSize + (bytes.take (total - downloadSize)).length),
        fill buffer downloadSize (bytes.take (total - downloadSize))) := by
  rw [recvDeclared_received h]
  simp only
  rw [if_neg hmore]

theorem recvDeclared_fails (total fuel : Nat) (rounds : List Round)
    (buffer : Bytes) (downloadSize : Nat) (h : (rounds.headD closed).Fails) :
    ∃ ec, recvDeclared total (fuel + 1) rounds buffer downloadSize =
      some (.error ec, buffer) := by
  rw [recvDeclared]
  cases hround : rounds.headD closed with
  | unavailable e => exact ⟨_, rfl⟩
  | unread announced e => exact ⟨_, rfl⟩
  | received announced bytes le =>
      rw [hround] at h
      exact h.elim

theorem Round.fails_or (round : Round) :
    round.Fails ∨ ∃ announced bytes le, round = .received announced bytes le := by
  cases round with
  | unavailable e => exact .inl trivial
  | unread announced e => exact .inl trivial
  | received announced bytes le => exact .inr ⟨announced, bytes, le, rfl⟩

theorem recvDeclared_ok {total fuel : Nat} {rounds : List Round}
    {buffer buffer' : Bytes} {downloadSize n : Nat}
    (h : recvDeclared total fuel rounds buffer downloadSize = some (.ok n, buffer'))
    (hbuffer : buffer.length = total) (hsize : downloadSize ≤ total) :
    n = total ∧ total ≤ downloadSize + (bodyBytes rounds).length ∧
      buffer'.take total = buffer.take downloadSize ++
        (bodyBytes rounds).take (total - downloadSize) := by
  induction fuel generalizing rounds buffer downloadSize with
  | zero => cases h
  | succ fuel ih =>
      rcases (rounds.headD closed).fails_or with hfails | ⟨announced, bytes, le, hhead⟩
      · obtain ⟨ec, heq⟩ := recvDeclared_fails total fuel rounds buffer
          downloadSize hfails
        rw [heq] at h
        cases h
      · rw [recvDeclared_received hhead] at h
        have hbody := bodyBytes_head rounds
        rw [hhead] at hbody
        have hlen : (bytes.take (total - downloadSize)).length =
            min (total - downloadSize) bytes.length := List.length_take
        simp only at h
        split at h
        · rename_i hless
          have hwhole : bytes.take (total - downloadSize) = bytes := by
            apply List.take_of_length_le
            omega
          rw [hwhole] at h hless
          have hfill := length_fill buffer bytes
            (show downloadSize + _ ≤ _ by omega)
          obtain ⟨hn, henough, htake⟩ := ih h (hfill.trans hbuffer) hless.le
          rw [take_fill buffer bytes (by omega)] at htake
          have hsplit : total - downloadSize =
              bytes.length + (total - (downloadSize + bytes.length)) := by omega
          refine ⟨hn, ?_, ?_⟩
          · rw [hbody, List.length_append]
            exact henough.trans (Nat.add_assoc _ _ _).le
          · rw [htake, hbody, List.append_assoc, hsplit]
            exact congrArg _ (List.take_length_add_append _).symm
        · rename_i hmore
          have hbytes : total - downloadSize ≤ bytes.length := by omega
          rw [Option.some.injEq, Prod.mk.injEq, Except.ok.injEq] at h
          obtain ⟨rfl, rfl⟩ := h
          have hn : downloadSize + (bytes.take (total - downloadSize)).length = total := by
            omega
          refine ⟨hn, ?_, ?_⟩
          · rw [hbody, List.length_append]
            change total ≤ downloadSize + (bytes.length + _)
            omega
          · have htake := take_fill buffer (bytes.take (total - downloadSize))
              (show downloadSize ≤ _ by omega)
            rw [hn] at htake
            rw [htake, hbody]
            exact congrArg _ (List.take_append_of_le_length hbytes).symm

/-- The loop ends only if there are enough bytes, or by a failure. -/
theorem recvDeclared_returns_iff {total : Nat} {rounds : List Round}
    {buffer : Bytes} {downloadSize : Nat} :
    (∃ fuel result, recvDeclared total fuel rounds buffer downloadSize =
        some result) ↔
      (∃ round ∈ rounds, round.Fails) ∨
        total ≤ downloadSize + (bodyBytes rounds).length := by
  constructor
  · rintro ⟨fuel, result, h⟩
    by_contra hnot
    rw [not_or, not_le] at hnot
    obtain ⟨hworks, hless⟩ := hnot
    induction fuel generalizing rounds buffer downloadSize with
    | zero => cases h
    | succ fuel ih =>
        have hbody := bodyBytes_head rounds
        rcases (rounds.headD closed).fails_or with
          hfails | ⟨announced, bytes, le, hhead⟩
        · cases rounds with
          | nil => exact hfails
          | cons round rounds => exact hworks ⟨round, List.mem_cons_self, hfails⟩
        · rw [hhead] at hbody
          rw [hbody, List.length_append] at hless
          change downloadSize + (bytes.length + _) < total at hless
          have hwhole : bytes.take (total - downloadSize) = bytes := by
            apply List.take_of_length_le
            omega
          rw [recvDeclared_received hhead] at h
          simp only [hwhole] at h
          rw [if_pos (by omega)] at h
          refine ih h ?_ (by omega)
          rintro ⟨round, hmem, hfails⟩
          exact hworks ⟨round, List.mem_of_mem_tail hmem, hfails⟩
  · intro h
    induction rounds generalizing buffer downloadSize with
    | nil =>
        have henough : total ≤ downloadSize := by
          rcases h with ⟨round, hmem, -⟩ | henough
          · exact absurd hmem List.not_mem_nil
          · exact henough
        refine ⟨1, _, recvDeclared_done rfl ?_⟩
        rw [List.take_nil, List.length_nil]
        omega
    | cons round rounds ih =>
        rcases round.fails_or with hfails | ⟨announced, bytes, le, rfl⟩
        · obtain ⟨ec, heq⟩ := recvDeclared_fails total 0 (round :: rounds) buffer
            downloadSize hfails
          exact ⟨1, _, heq⟩
        · by_cases hless :
            downloadSize + (bytes.take (total - downloadSize)).length < total
          · have hrest : (∃ round ∈ rounds, round.Fails) ∨
                total ≤ downloadSize + (bytes.take (total - downloadSize)).length +
                  (bodyBytes rounds).length := by
              rcases h with ⟨round, hmem, hfails⟩ | henough
              · rcases List.mem_cons.mp hmem with rfl | hmem
                · exact hfails.elim
                · exact .inl ⟨round, hmem, hfails⟩
              · right
                rw [bodyBytes_cons, List.length_append] at henough
                change total ≤ downloadSize + (bytes.length + _) at henough
                rw [List.length_take] at hless ⊢
                omega
            obtain ⟨fuel, result, heq⟩ := @ih
              (fill buffer downloadSize (bytes.take (total - downloadSize))) _ hrest
            exact ⟨fuel + 1, result, (recvDeclared_again rfl hless).trans heq⟩
          · exact ⟨1, _, recvDeclared_done rfl hless⟩

/-! ## Without a declared length -/

theorem Round.goesOn_iff {round : Round} :
    round.GoesOn ↔ ∃ announced bytes le,
      round = .received announced bytes le ∧ announced ≠ 0 := by
  cases round with
  | unavailable e => exact iff_of_false id (by simp)
  | unread announced e => exact iff_of_false id (by simp)
  | received announced bytes le =>
      constructor
      · intro h
        exact ⟨announced, bytes, le, rfl, h⟩
      · rintro ⟨announced', bytes', le', heq, h⟩
        cases heq
        exact h

theorem recvChunks_ends (maxBodySize fuel : Nat) (rounds : List Round)
    (buffer : Bytes) (downloadSize : Nat)
    (h : ¬ (rounds.headD closed).GoesOn) :
    ∃ result, recvChunks maxBodySize (fuel + 1) rounds buffer downloadSize =
        some (result, buffer) ∧ ∀ n, result = .ok n → n = downloadSize := by
  rw [recvChunks]
  cases hround : rounds.headD closed with
  | unavailable e => exact ⟨_, rfl, fun n hn => by cases hn⟩
  | unread announced e =>
      by_cases hzero : announced = 0
      · simp only [if_pos hzero]
        exact ⟨_, rfl, fun n hn => (Except.ok.inj hn).symm⟩
      · simp only [if_neg hzero]
        exact ⟨_, rfl, fun n hn => by cases hn⟩
  | received announced bytes le =>
      rw [hround] at h
      have hzero : announced = 0 := not_not.mp h
      simp only [if_pos hzero]
      exact ⟨_, rfl, fun n hn => (Except.ok.inj hn).symm⟩

theorem recvChunks_received {maxBodySize fuel : Nat} {rounds : List Round}
    {buffer bytes : Bytes} {downloadSize : Nat} {announced : UInt32}
    {le : bytes.length ≤ announced.toNat}
    (h : rounds.headD closed = .received announced bytes le) (hne : announced ≠ 0) :
    recvChunks maxBodySize (fuel + 1) rounds buffer downloadSize =
      let buffer := fill (grow buffer (downloadSize + announced.toNat))
        downloadSize bytes
      if downloadSize + bytes.length < maxBodySize then
        recvChunks maxBodySize fuel rounds.tail buffer (downloadSize + bytes.length)
      else some (.ok (downloadSize + bytes.length), buffer) := by
  rw [recvChunks, h]
  simp only [if_neg hne]

theorem recvChunks_done {maxBodySize fuel : Nat} {rounds : List Round}
    {buffer bytes : Bytes} {downloadSize : Nat} {announced : UInt32}
    {le : bytes.length ≤ announced.toNat}
    (h : rounds.headD closed = .received announced bytes le) (hne : announced ≠ 0)
    (hmore : ¬ downloadSize + bytes.length < maxBodySize) :
    recvChunks maxBodySize (fuel + 1) rounds buffer downloadSize =
      some (.ok (downloadSize + bytes.length),
        fill (grow buffer (downloadSize + announced.toNat)) downloadSize bytes) := by
  rw [recvChunks_received h hne]
  simp only
  rw [if_neg hmore]

theorem recvChunks_again {maxBodySize fuel : Nat} {rounds : List Round}
    {buffer bytes : Bytes} {downloadSize : Nat} {announced : UInt32}
    {le : bytes.length ≤ announced.toNat}
    (h : rounds.headD closed = .received announced bytes le) (hne : announced ≠ 0)
    (hless : downloadSize + bytes.length < maxBodySize) :
    recvChunks maxBodySize (fuel + 1) rounds buffer downloadSize =
      recvChunks maxBodySize fuel rounds.tail
        (fill (grow buffer (downloadSize + announced.toNat)) downloadSize bytes)
        (downloadSize + bytes.length) := by
  rw [recvChunks_received h hne]
  simp only
  rw [if_pos hless]

theorem recvChunks_returns (maxBodySize : Nat) (rounds : List Round)
    (buffer : Bytes) (downloadSize : Nat) :
    ∃ fuel result, recvChunks maxBodySize fuel rounds buffer downloadSize =
      some result := by
  induction rounds generalizing buffer downloadSize with
  | nil => exact ⟨1, _, rfl⟩
  | cons round rounds ih =>
      by_cases hgoes : round.GoesOn
      · obtain ⟨announced, bytes, le, rfl, hne⟩ := Round.goesOn_iff.mp hgoes
        obtain ⟨fuel, result, h⟩ := ih
          (fill (grow buffer (downloadSize + announced.toNat)) downloadSize bytes)
          (downloadSize + bytes.length)
        by_cases hless : downloadSize + bytes.length < maxBodySize
        · exact ⟨fuel + 1, result, (recvChunks_again rfl hne hless).trans h⟩
        · exact ⟨1, _, recvChunks_done rfl hne hless⟩
      · obtain ⟨result, h, -⟩ := recvChunks_ends maxBodySize 0 (round :: rounds)
          buffer downloadSize hgoes
        exact ⟨1, _, h⟩

theorem recvChunks_ok {maxBodySize fuel : Nat} {rounds : List Round}
    {buffer buffer' : Bytes} {downloadSize n : Nat}
    (h : recvChunks maxBodySize fuel rounds buffer downloadSize =
      some (.ok n, buffer')) (hbuffer : downloadSize ≤ buffer.length) :
    downloadSize ≤ n ∧ n ≤ downloadSize + (bodyBytes rounds).length ∧
      buffer'.take n = buffer.take downloadSize ++
        (bodyBytes rounds).take (n - downloadSize) := by
  induction fuel generalizing rounds buffer downloadSize with
  | zero => cases h
  | succ fuel ih =>
      by_cases hgoes : (rounds.headD closed).GoesOn
      · obtain ⟨announced, bytes, le, hhead, hne⟩ := Round.goesOn_iff.mp hgoes
        have hbody := bodyBytes_head rounds
        rw [hhead] at hbody
        have hgrow := le_length_grow buffer (downloadSize + announced.toNat)
        have hfill := length_fill (grow buffer (downloadSize + announced.toNat))
          bytes (show downloadSize + _ ≤ _ by omega)
        have htake := take_fill (grow buffer (downloadSize + announced.toNat))
          bytes (show downloadSize ≤ _ by omega)
        rw [take_grow hbuffer (Nat.le_add_right _ _)] at htake
        by_cases hless : downloadSize + bytes.length < maxBodySize
        · rw [recvChunks_again hhead hne hless] at h
          obtain ⟨hle, hn, hrest⟩ := ih h (by omega)
          have hsplit : n - downloadSize =
              bytes.length + (n - (downloadSize + bytes.length)) := by omega
          refine ⟨by omega, ?_, ?_⟩
          · rw [hbody, List.length_append]
            exact hn.trans (Nat.add_assoc _ _ _).le
          · rw [hrest, htake, hbody, List.append_assoc, hsplit]
            exact congrArg _ (List.take_length_add_append _).symm
        · rw [recvChunks_done hhead hne hless, Option.some.injEq, Prod.mk.injEq,
            Except.ok.injEq] at h
          obtain ⟨rfl, rfl⟩ := h
          refine ⟨Nat.le_add_right _ _, ?_, ?_⟩
          · rw [hbody, List.length_append]
            exact Nat.add_le_add_left (Nat.le_add_right _ _) _
          · rw [htake, hbody, Nat.add_sub_cancel_left]
            exact congrArg _ List.take_left.symm
      · obtain ⟨result, heq, hok⟩ := recvChunks_ends maxBodySize fuel rounds buffer
          downloadSize hgoes
        rw [heq, Option.some.injEq, Prod.mk.injEq] at h
        obtain ⟨hresult, rfl⟩ := h
        obtain rfl := hok n hresult
        refine ⟨le_rfl, Nat.le_add_right _ _, ?_⟩
        rw [Nat.sub_self, List.take_zero, List.append_nil]

/-! ## More than allowed -/

theorem overshoots_cons_iff {maxBodySize start : Nat} {announced : UInt32}
    {bytes : Bytes} {le : bytes.length ≤ announced.toNat} {rounds : List Round}
    (hne : announced ≠ 0) :
    Overshoots maxBodySize start (.received announced bytes le :: rounds) ↔
      maxBodySize < start + bytes.length ∨
        start + bytes.length < maxBodySize ∧
          Overshoots maxBodySize (start + bytes.length) rounds := by
  constructor
  · rintro ⟨front, round, back, heq, hfront, hround, hless, hmore⟩
    cases front with
    | nil =>
        rw [List.nil_append] at heq
        obtain ⟨rfl, rfl⟩ := List.cons.inj heq
        exact .inl hmore
    | cons r front =>
        rw [List.cons_append] at heq
        obtain ⟨rfl, rfl⟩ := List.cons.inj heq
        have hsum := hless (List.cons_ne_nil _ _)
        rw [bodyBytes_cons, List.length_append] at hsum hmore
        change start + (bytes.length + _) < maxBodySize at hsum
        change maxBodySize < start + (bytes.length + _) + _ at hmore
        refine .inr ⟨by omega, front, round, back, rfl, ?_, hround, ?_, by omega⟩
        · exact fun r hr => hfront r (List.mem_cons_of_mem _ hr)
        · exact fun _ => by omega
  · rintro (hmore | ⟨hless, front, round, back, rfl, hfront, hround, hsum, hmore⟩)
    · exact ⟨[], .received announced bytes le, rounds, rfl,
        fun r hr => absurd hr List.not_mem_nil, hne, fun h => absurd rfl h, hmore⟩
    · refine ⟨.received announced bytes le :: front, round, back, rfl, ?_, hround, ?_, ?_⟩
      · rintro r hr
        rcases List.mem_cons.mp hr with rfl | hr
        · exact hne
        · exact hfront r hr
      · intro _
        rw [bodyBytes_cons, List.length_append]
        change start + (bytes.length + _) < maxBodySize
        by_cases hempty : front = []
        · rw [hempty]
          exact hless
        · have := hsum hempty
          omega
      · rw [bodyBytes_cons, List.length_append]
        change maxBodySize < start + (bytes.length + _) + _
        omega

theorem Overshoots.head {maxBodySize start : Nat} {rounds : List Round}
    (h : Overshoots maxBodySize start rounds) : (rounds.headD closed).GoesOn := by
  obtain ⟨front, round, back, rfl, hfront, hround, -, -⟩ := h
  cases front with
  | nil => exact hround
  | cons r front => exact hfront r List.mem_cons_self

/-- The result is more than allowed exactly if a round overshoots. -/
theorem recvChunks_overshoots_iff {maxBodySize fuel : Nat} {rounds : List Round}
    {buffer : Bytes} {downloadSize : Nat} {result : Except ErrorCode Nat × Bytes}
    (h : recvChunks maxBodySize fuel rounds buffer downloadSize = some result)
    (hsize : downloadSize ≤ maxBodySize) :
    (∃ n, result.1 = .ok n ∧ maxBodySize < n) ↔
      Overshoots maxBodySize downloadSize rounds := by
  induction fuel generalizing rounds buffer downloadSize with
  | zero => cases h
  | succ fuel ih =>
      by_cases hgoes : (rounds.headD closed).GoesOn
      · obtain ⟨announced, bytes, le, hhead, hne⟩ := Round.goesOn_iff.mp hgoes
        cases rounds with
        | nil => exact absurd rfl hgoes
        | cons round rounds =>
            obtain rfl : round = .received announced bytes le := hhead
            rw [overshoots_cons_iff hne]
            by_cases hless : downloadSize + bytes.length < maxBodySize
            · rw [recvChunks_again rfl hne hless, List.tail_cons] at h
              rw [ih h hless.le, or_iff_right (by omega), and_iff_right hless]
            · rw [recvChunks_done rfl hne hless, Option.some.injEq] at h
              rw [← h, or_iff_left fun hmore => hless hmore.1]
              constructor
              · rintro ⟨n, hn, hmore⟩
                exact (Except.ok.inj hn) ▸ hmore
              · intro hmore
                exact ⟨_, rfl, hmore⟩
      · obtain ⟨result', heq, hok⟩ := recvChunks_ends maxBodySize fuel rounds buffer
          downloadSize hgoes
        rw [heq, Option.some.injEq] at h
        refine iff_of_false ?_ fun hover => hgoes hover.head
        rintro ⟨n, hn, hmore⟩
        rw [← h] at hn
        have := hok n hn
        omega

/-- The body is right exactly if the declared length arrives and, without one,
no round overshoots. -/
theorem recvCompletely_right_iff (len : Int64) (buffer : Bytes)
    (maxBodySize : UInt64) (rounds : List Round) :
    BodyRight len buffer maxBodySize rounds ↔
      (0 < len → Arrives (min maxBodySize.toNat len.toInt.toNat) rounds) ∧
        (len < 0 → ¬ Overshoots maxBodySize.toNat 0 rounds) := by
  unfold BodyRight recvCompletely
  by_cases hzero : len = 0
  · subst hzero
    refine iff_of_true ⟨0, (.ok 0, buffer), rfl, ?_⟩ ⟨?_, ?_⟩
    · rintro n ⟨rfl⟩
      exact ⟨Nat.zero_le _, rfl, Nat.zero_le _, fun _ => Nat.min_le_left _ _⟩
    · exact fun h => absurd h (by decide)
    · exact fun h => absurd h (by decide)
  simp only [if_neg hzero]
  by_cases hpos : 0 < len
  · have hneg : ¬ len < 0 := Int64.lt_asymm hpos
    simp only [if_pos hpos]
    have hiff := @recvDeclared_returns_iff
      (min maxBodySize.toNat len.toInt.toNat) rounds
      (resize buffer (min maxBodySize.toNat len.toInt.toNat)) 0
    rw [Nat.zero_add] at hiff
    rw [and_iff_left fun h => absurd h hneg]
    constructor
    · rintro ⟨fuel, result, h, -⟩ -
      exact hiff.mp ⟨fuel, result, h⟩
    · intro h
      obtain ⟨fuel, result, heq⟩ := hiff.mpr (h hpos)
      refine ⟨fuel, result, heq, ?_⟩
      rintro n hn
      obtain ⟨first, buffer'⟩ := result
      obtain rfl : first = .ok n := hn
      obtain ⟨rfl, henough, htake⟩ := recvDeclared_ok heq (length_resize _ _)
        (Nat.zero_le _)
      rw [Nat.zero_add] at henough
      rw [Nat.sub_zero, List.take_zero, List.nil_append] at htake
      exact ⟨henough, htake, Nat.min_le_left _ _, fun _ => (Nat.min_comm _ _).le⟩
  · have hneg : len < 0 := by
      by_contra h
      exact hzero (Int64.le_antisymm (Int64.not_lt.mp hpos) (Int64.not_lt.mp h))
    have hnot : ¬ 0 ≤ len := Int64.not_le.mpr hneg
    simp only [if_neg hpos]
    rw [and_iff_right fun h => absurd h hpos]
    constructor
    · rintro ⟨fuel, result, h, hright⟩ - hover
      obtain ⟨n, hn, hmore⟩ :=
        (recvChunks_overshoots_iff h (Nat.zero_le _)).mpr hover
      exact absurd (hright n hn).2.2.1 (not_le.mpr hmore)
    · intro h
      obtain ⟨fuel, result, heq⟩ := recvChunks_returns maxBodySize.toNat rounds
        (resize buffer (256 * 1024)) 0
      refine ⟨fuel, result, heq, ?_⟩
      rintro n hn
      have hsize : n ≤ maxBodySize.toNat := by
        by_contra hmore
        exact h hneg ((recvChunks_overshoots_iff heq (Nat.zero_le _)).mp
          ⟨n, hn, not_le.mp hmore⟩)
      obtain ⟨first, buffer'⟩ := result
      obtain rfl : first = .ok n := hn
      obtain ⟨-, hle, htake⟩ := recvChunks_ok heq (Nat.zero_le _)
      rw [Nat.zero_add] at hle
      rw [Nat.sub_zero, List.take_zero, List.nil_append] at htake
      exact ⟨hle, htake, hsize, fun h => absurd h hnot⟩

/-- One byte is declared, and the connection is closed. -/
theorem recvCompletely_never_returns :
    ¬ ∀ (len : Int64) (buffer : Bytes) (maxBodySize : UInt64) (rounds : List Round),
      BodyRight len buffer maxBodySize rounds := by
  intro h
  obtain ⟨fuel, result, heq, -⟩ := h 1 [] 1024 []
  have harrives := recvDeclared_returns_iff.mp ⟨fuel, result, heq⟩
  rcases harrives with ⟨round, hmem, -⟩ | henough
  · exact absurd hmem List.not_mem_nil
  · exact absurd henough (by decide)

end Baulk.Net
