import Baulk.Zip.Move
import Baulk.Zip.Shift

/-!
# The end record that is used

The search for the end record goes backwards from the end of the file.  Whatever
calls fail, a search that succeeds has found the last end record, and the offset
of the central directory is the one that this record, or the zip64 end record it
leads to, declares.
-/

namespace Baulk.Zip

/-! ## The last end record -/

theorem field_append (stub b : Bytes) (offset width : Nat) :
    field (stub ++ b) (stub.length + offset) width = field b offset width := by
  rw [field, field, List.drop_append, List.drop_eq_nil_of_le (by omega),
    List.nil_append, Nat.add_sub_cancel_left]

theorem endRecordAt_append (stub b : Bytes) (i : Nat) :
    endRecordAt (stub ++ b) (stub.length + i) = endRecordAt b i := by
  have hdrop : (stub ++ b).drop (stub.length + i) = b.drop i := by
    rw [List.drop_append, List.drop_eq_nil_of_le (by omega), List.nil_append,
      Nat.add_sub_cancel_left]
  have hfield : field (stub ++ b) (stub.length + i + directoryEndLen - 2) 2 =
      field b (i + directoryEndLen - 2) 2 := by
    rw [← field_append stub b, directoryEndLen]
    congr 1
  simp only [endRecordAt, hdrop, hfield, List.length_append]
  congr 1
  exact decide_eq_decide.mpr (by omega)

theorem endRecordAt_fits {b : Bytes} {i : Nat} (h : endRecordAt b i = true) :
    i + directoryEndLen + field (b.drop i) 20 2 ≤ b.length := by
  have hfield : field (b.drop i) 20 2 = field b (i + directoryEndLen - 2) 2 := by
    rw [field, field, List.drop_drop]
    rfl
  unfold endRecordAt at h
  rw [Bool.and_eq_true, decide_eq_true_eq] at h
  omega

theorem endRecordAt_drop {b : Bytes} {k : Nat} (hk : k ≤ b.length) (i : Nat) :
    endRecordAt (b.drop k) i = endRecordAt b (k + i) := by
  have happend := endRecordAt_append (b.take k) (b.drop k) i
  rw [List.take_append_drop, List.length_take, Nat.min_eq_left hk] at happend
  exact happend.symm

/-- The search ends at this record: it is the last one, and within the larger of the
two blocks. -/
structure UsedRecord (content : Bytes) (e : Nat) : Prop where
  found : endRecordAt content e = true
  last : ∀ i, e < i → endRecordAt content i = false
  near : content.length ≤ e + 65 * 1024

theorem UsedRecord.unique {content : Bytes} {e e' : Nat} (h : UsedRecord content e)
    (h' : UsedRecord content e') : e = e' := by
  rcases Nat.lt_trichotomy e e' with hlt | heq | hgt
  · have hnone := h.last e' hlt
    rw [h'.found] at hnone
    cases hnone
  · exact heq
  · have hnone := h'.last e hgt
    rw [h.found] at hnone
    cases hnone

theorem lastEndRecord_some {b : Bytes} {bound i : Nat}
    (h : lastEndRecord b bound = some i) :
    endRecordAt b i = true ∧ ∀ j, i < j → j < bound → endRecordAt b j = false := by
  induction bound with
  | zero => cases h
  | succ bound ih =>
      rw [lastEndRecord] at h
      split at h
      · next hat =>
        cases h
        exact ⟨hat, fun j hlt hle => by omega⟩
      · next hnot =>
        obtain ⟨hat, hlast⟩ := ih h
        refine ⟨hat, fun j hlt hle => ?_⟩
        rcases Nat.lt_succ_iff_lt_or_eq.mp hle with hbelow | rfl
        · exact hlast j hlt hbelow
        · exact Bool.eq_false_iff.mpr hnot

theorem findSignatureInBlock_some {b : Bytes} {i : Nat}
    (h : findSignatureInBlock b = some i) :
    endRecordAt b i = true ∧ ∀ j, i < j → endRecordAt b j = false := by
  obtain ⟨hat, hlast⟩ := lastEndRecord_some h
  refine ⟨hat, fun j hlt => ?_⟩
  rcases Nat.lt_or_ge j (b.length + 1 - directoryEndLen) with hbelow | habove
  · exact hlast j hlt hbelow
  · rw [Bool.eq_false_iff]
    intro hj
    have hfits := endRecordAt_fits hj
    omega

/-! ## Reads -/

variable {env : Env} {s s' : Session}

theorem readAt_ok {env : Env} {n : Nat} {offset : UInt64} {s s' : Session}
    {got : Bytes} (h : readAt env n offset s = (.ok got, s')) :
    got = (env.content.bytes.drop offset.toNat).take n := by
  unfold readAt at h
  rcases hseek : seek env offset s with ec | s₁ <;> rw [hseek] at h <;>
    dsimp only at h
  · cases h
  · rw [← (seek_ok hseek).2]
    exact (Session.readFull_ok h).1

theorem readAt_length {n : Nat} {offset : UInt64} {got : Bytes}
    (h : readAt env n offset s = (.ok got, s')) : got.length = n := by
  unfold readAt at h
  rcases hseek : seek env offset s with ec | s₁ <;> rw [hseek] at h <;> dsimp only at h
  · cases h
  · exact (Session.readFull_ok h).2.2

theorem searchBlock_ok {range : Nat} {found : Option (Bytes × Nat)}
    (h : searchBlock env env.content.bytes.length range s = (.ok found, s')) :
    found = (findSignatureInBlock (env.content.bytes.drop
        (env.content.bytes.length - min range env.content.bytes.length))).map fun p =>
      (env.content.bytes.drop
          (env.content.bytes.length - min range env.content.bytes.length + p),
        env.content.bytes.length - min range env.content.bytes.length + p) := by
  unfold searchBlock at h
  dsimp only at h
  generalize hblen : min range env.content.bytes.length = blen at h ⊢
  rcases hread : readAt env blen (UInt64.ofNat (env.content.bytes.length - blen)) s with
    ⟨ec | buffer, s₁⟩ <;> rw [hread] at h <;> cases h
  have hlt := env.content.length_lt
  have hoffset : (UInt64.ofNat (env.content.bytes.length - blen)).toNat =
      env.content.bytes.length - blen := by
    rw [UInt64.toNat_ofNat']
    omega
  have hbuffer := readAt_ok hread
  rw [hoffset, List.take_of_length_le (by rw [List.length_drop]; omega)] at hbuffer
  rw [hbuffer]
  simp only [List.drop_drop]

theorem searchDirectoryEnd_used {ranges : List Nat} {record : Bytes} {e : Nat}
    (hranges : ∀ range ∈ ranges, range ≤ 65 * 1024)
    (h : searchDirectoryEnd env env.content.bytes.length ranges s = (.ok (record, e), s')) :
    record = env.content.bytes.drop e ∧ UsedRecord env.content.bytes e := by
  induction ranges generalizing s with
  | nil => cases h
  | cons range ranges ih =>
      rw [searchDirectoryEnd] at h
      rcases hround : searchBlock env env.content.bytes.length range s with
        ⟨ec | found, s₁⟩ <;> rw [hround] at h
      · cases h
      · have hfound := searchBlock_ok hround
        cases hfind : findSignatureInBlock (env.content.bytes.drop
            (env.content.bytes.length - min range env.content.bytes.length)) with
        | some p =>
            rw [hfind, Option.map_some] at hfound
            subst hfound
            cases h
            obtain ⟨hat, hlast⟩ := findSignatureInBlock_some hfind
            have hrange := hranges range List.mem_cons_self
            rw [endRecordAt_drop (Nat.sub_le _ _)] at hat
            refine ⟨rfl, hat, fun i hlt => ?_, by omega⟩
            obtain ⟨j, rfl⟩ := Nat.exists_eq_add_of_lt hlt
            have hj := hlast (p + j + 1) (by omega)
            rw [endRecordAt_drop (Nat.sub_le _ _), ← Nat.add_assoc, ← Nat.add_assoc] at hj
            exact hj
        | none =>
            rw [hfind, Option.map_none] at hfound
            subst hfound
            dsimp only at h
            split at h
            · cases h
            · exact ih (fun r hr => hranges r (List.mem_cons_of_mem _ hr)) h

/-! ## Files that no call fails on -/

theorem readAt_of_room (content : FileBytes) {n offset : Nat} (s : Session)
    (h : offset + n ≤ content.bytes.length) :
    ∃ s', readAt (plainEnv content) n (UInt64.ofNat offset) s =
      (.ok ((content.bytes.drop offset).take n), s') := by
  have hlt := content.length_lt
  have hoffset : (UInt64.ofNat offset).toNat = offset := by
    rw [UInt64.toNat_ofNat']
    omega
  obtain ⟨s', hread, -, -⟩ := readFull_of_room content
    { s with pos := offset, calls := s.calls + 1 } h
  refine ⟨s', ?_⟩
  unfold readAt
  rw [seek_of_lt (by omega), hoffset]
  exact hread

/-- One round of the search, on the last `blen` bytes of the file. -/
theorem searchBlock_plain (content : FileBytes) (range : Nat) (s : Session)
    {blen : Nat} (hblen : min range content.bytes.length = blen) :
    ∃ s', searchBlock (plainEnv content) content.bytes.length range s =
      (.ok ((findSignatureInBlock
          (content.bytes.drop (content.bytes.length - blen))).map fun p =>
            (content.bytes.drop (content.bytes.length - blen + p),
              content.bytes.length - blen + p)), s') := by
  have hroom : content.bytes.length - blen + blen ≤ content.bytes.length := by
    omega
  obtain ⟨s', hread⟩ := readAt_of_room content s hroom
  have hblock : (content.bytes.drop (content.bytes.length - blen)).take blen =
      content.bytes.drop (content.bytes.length - blen) := by
    apply List.take_of_length_le
    rw [List.length_drop]
    omega
  refine ⟨s', ?_⟩
  simp only [searchBlock, hblen, hread, hblock, List.drop_drop]

theorem lastEndRecord_eq_none {b : Bytes} {bound : Nat}
    (h : ∀ i, endRecordAt b i = false) : lastEndRecord b bound = none := by
  induction bound with
  | zero => rfl
  | succ bound ih =>
      rw [lastEndRecord, if_neg (by rw [h]; decide)]
      exact ih

theorem lastEndRecord_eq_some {b : Bytes} {bound i : Nat} (hi : i < bound)
    (hat : endRecordAt b i = true)
    (hlast : ∀ j, i < j → endRecordAt b j = false) :
    lastEndRecord b bound = some i := by
  induction bound with
  | zero => omega
  | succ bound ih =>
      rw [lastEndRecord]
      by_cases heq : i = bound
      · rw [← heq, if_pos hat]
      · rw [if_neg (by rw [hlast bound (by omega)]; decide)]
        exact ih (by omega)

/-- The last end record of the file is found in the first block that reaches
back to it. -/
theorem searchDirectoryEnd_last {content : FileBytes} {e : Nat}
    (hat : endRecordAt content.bytes e = true)
    (hlast : ∀ j, e < j → endRecordAt content.bytes j = false)
    (ranges : List Nat)
    (hnear : ∃ range ∈ ranges, content.bytes.length ≤ e + range)
    (s : Session) :
    ∃ s', searchDirectoryEnd (plainEnv content) content.bytes.length ranges s =
      (.ok (content.bytes.drop e, e), s') := by
  have hroom := endRecordAt_fits hat
  induction ranges generalizing s with
  | nil =>
      obtain ⟨range, hmem, -⟩ := hnear
      cases hmem
  | cons range ranges ih =>
      obtain ⟨s₁, hround⟩ := searchBlock_plain content range s rfl
      rw [searchDirectoryEnd, hround]
      generalize hblen : min range content.bytes.length = blen
      have hle : content.bytes.length - blen ≤ content.bytes.length :=
        Nat.sub_le _ _
      unfold findSignatureInBlock
      by_cases hin : content.bytes.length - blen ≤ e
      · -- The block holds the record.
        obtain ⟨p, hp⟩ : ∃ p, e = content.bytes.length - blen + p :=
          ⟨e - (content.bytes.length - blen), by omega⟩
        have hfind : lastEndRecord
            (content.bytes.drop (content.bytes.length - blen))
            ((content.bytes.drop (content.bytes.length - blen)).length + 1 -
              directoryEndLen) = some p := lastEndRecord_eq_some
          (by rw [List.length_drop]; omega)
          (by rw [endRecordAt_drop hle, ← hp]; exact hat)
          (fun j hj => by
            rw [endRecordAt_drop hle]
            exact hlast _ (by omega))
        rw [hfind]
        dsimp only [Option.map]
        rw [← hp]
        exact ⟨s₁, rfl⟩
      · rw [lastEndRecord_eq_none fun i => by
          rw [endRecordAt_drop hle]
          exact hlast _ (by omega)]
        dsimp only [Option.map]
        obtain ⟨range', hmem, hreach⟩ := hnear
        have htail : range' ∈ ranges := by
          rcases List.mem_cons.mp hmem with rfl | htail
          · omega
          · exact htail
        rw [if_neg ?_]
        · exact ih ⟨range', htail, hreach⟩ s₁
        · rintro (hnil | hall)
          · rw [hnil] at htail
            cases htail
          · omega

/-! ## The zip64 end record -/

/-- Where the locator before an end record at `e` says that the zip64 end
record is. -/
def zip64Position (content : Bytes) (e : Nat) : Int :=
  if e < directory64LocLen then -1
  else
    parseLocator ((content.drop (e - directory64LocLen)).take
      directory64LocLen)

theorem zip64Position_lt (content : Bytes) (e : Nat) :
    zip64Position content e < 2 ^ 63 := by
  unfold zip64Position parseLocator
  repeat' split
  all_goals first
    | decide
    | exact Int64.toInt_lt _

def Zip64EndAt (content : Bytes) (offset : Nat) : Prop :=
  leValue ((content.drop offset).take 4) = directory64EndSignature

/-- The zip64 end record is taken from the offset that the locator names. -/
theorem findDirectory64End_plain (content : FileBytes) {e : Nat}
    (h : e ≤ content.bytes.length) (s : Session) :
    ∃ s', findDirectory64End (plainEnv content) e s =
      (.ok (zip64Position content.bytes e), s') := by
  unfold findDirectory64End zip64Position
  split
  · exact ⟨s, rfl⟩
  · have hroom : e - directory64LocLen + directory64LocLen ≤
        content.bytes.length := by omega
    obtain ⟨s', hread⟩ := readAt_of_room content s hroom
    rw [hread]
    exact ⟨s', rfl⟩

theorem resolveZip64_plain (content : FileBytes) {e : Nat}
    (he : e ≤ content.bytes.length) {d : DirectoryEnd}
    (h : ¬ (d.refersToZip64 = true ∧ 0 < zip64Position content.bytes e))
    (s : Session) :
    ∃ s', resolveZip64 (plainEnv content) e d s = (.ok d, s') := by
  unfold resolveZip64
  split
  · rename_i hrefers
    obtain ⟨s', hfind⟩ := findDirectory64End_plain content he s
    rw [hfind]
    dsimp only
    rw [if_neg fun hpos => h ⟨hrefers, hpos⟩]
    exact ⟨s', rfl⟩
  · exact ⟨s, rfl⟩

/-! ## The offset that is declared -/

theorem findDirectory64End_ok {e : Nat} {p : Int}
    (he : e ≤ env.content.bytes.length)
    (h : findDirectory64End env e s = (.ok p, s')) :
    p = zip64Position env.content.bytes e := by
  unfold findDirectory64End at h
  unfold zip64Position
  split at h
  · next hlt =>
    cases h
    rw [if_pos hlt]
  · next hge =>
    rw [if_neg hge]
    split at h
    · cases h
    · next buffer s₁ hread =>
      cases h
      have hlt := env.content.length_lt
      have hbuffer := readAt_ok hread
      have hoffset : (UInt64.ofNat (e - directory64LocLen)).toNat = e - directory64LocLen := by
        rw [UInt64.toNat_ofNat']
        omega
      rw [hoffset] at hbuffer
      rw [hbuffer]

theorem readDirectory64End_ok {offset : UInt64} {d : DirectoryEnd}
    (h : readDirectory64End env offset s = (.ok d, s')) :
    Zip64EndAt env.content.bytes offset.toNat ∧
      offset.toNat + directory64EndLen ≤ env.content.bytes.length ∧
      d.directoryOffset = UInt64.ofNat (field (env.content.bytes.drop offset.toNat) 48 8) := by
  unfold readDirectory64End at h
  split at h
  · cases h
  · next buffer s₁ hread =>
    have hbuffer := readAt_ok hread
    have hlength := readAt_length hread
    split at h
    · cases h
    · next hsig =>
      rw [not_not] at hsig
      cases h
      rw [hbuffer, List.length_take, List.length_drop] at hlength
      have hroom : offset.toNat + directory64EndLen ≤ env.content.bytes.length := by
        have hpos : 0 < directory64EndLen := by decide
        omega
      rw [hbuffer, field, List.drop_zero, List.take_take] at hsig
      refine ⟨hsig, hroom, ?_⟩
      dsimp only
      rw [hbuffer, field, field, List.drop_take, List.take_take]
      rfl

/-- The zip64 end record to which an end record at `e` leads. -/
def zip64Record (content : Bytes) (e : Nat) : Option Nat :=
  if (parseDirectoryEnd (content.drop e)).refersToZip64 = true ∧ 0 < zip64Position content e
  then some (zip64Position content e).toNat
  else none

/-- The end record of the file leads to a zip64 end record. -/
def UsesZip64 (content : Bytes) : Prop :=
  ∃ e, UsedRecord content e ∧ (zip64Record content e).isSome = true

theorem usesZip64_iff {content : Bytes} {e : Nat} (hused : UsedRecord content e) :
    UsesZip64 content ↔
      (parseDirectoryEnd (content.drop e)).refersToZip64 = true ∧
        0 < zip64Position content e := by
  constructor
  · rintro ⟨e', hused', hsome⟩
    cases hused.unique hused'
    unfold zip64Record at hsome
    split at hsome
    · assumption
    · cases hsome
  · intro h
    exact ⟨e, hused, by rw [zip64Record, if_pos h]; rfl⟩

/-- The record that is used declares this offset of the central directory: itself, or
by a valid zip64 end record. -/
def DeclaresOffset (content : Bytes) (offset : Nat) : Prop :=
  ∃ e, UsedRecord content e ∧
    (zip64Record content e = none ∧ offset = field (content.drop e) 16 4 ∨
      ∃ p, zip64Record content e = some p ∧ Zip64EndAt content p ∧
        p + directory64EndLen ≤ content.length ∧ offset = field (content.drop p) 48 8)

theorem field_lt (record : Bytes) (offset width : Nat) :
    field record offset width < 256 ^ width := by
  refine Nat.lt_of_lt_of_le (leValue_lt _) (Nat.pow_le_pow_right (by decide) ?_)
  rw [List.length_take]
  exact Nat.min_le_left _ _

theorem toNat_zip64Position {content : Bytes} {e p : Nat}
    (h : zip64Record content e = some p) :
    (parseDirectoryEnd (content.drop e)).refersToZip64 = true ∧
      0 < zip64Position content e ∧ (zip64Position content e).toNat = p ∧
      (UInt64.ofNat p).toNat = p := by
  unfold zip64Record at h
  split at h
  · next hzip64 =>
    cases h
    have hlt := zip64Position_lt content e
    refine ⟨hzip64.1, hzip64.2, rfl, ?_⟩
    rw [UInt64.toNat_ofNat']
    omega
  · cases h

/-- What is left after the zip64 part has the offset that is declared. -/
theorem resolveZip64_ok {e : Nat} {d : DirectoryEnd}
    (hused : UsedRecord env.content.bytes e)
    (h : resolveZip64 env e (parseDirectoryEnd (env.content.bytes.drop e)) s =
      (.ok d, s')) :
    DeclaresOffset env.content.bytes d.directoryOffset.toNat := by
  have hfits := endRecordAt_fits hused.found
  have hself : (parseDirectoryEnd (env.content.bytes.drop e)).directoryOffset.toNat =
      field (env.content.bytes.drop e) 16 4 := by
    change (UInt64.ofNat (field (env.content.bytes.drop e) 16 4)).toNat = _
    have hlt := field_lt (env.content.bytes.drop e) 16 4
    rw [UInt64.toNat_ofNat']
    omega
  unfold resolveZip64 at h
  split at h
  · next hrefers =>
    rcases hfind : findDirectory64End env e s with ⟨ec | p, s₁⟩ <;> rw [hfind] at h
    · cases h
    · have hp := findDirectory64End_ok (by omega) hfind
      subst hp
      dsimp only at h
      split at h
      · next hpos =>
        have hrecord : zip64Record env.content.bytes e =
            some (zip64Position env.content.bytes e).toNat := if_pos ⟨hrefers, hpos⟩
        obtain ⟨-, -, -, hoffset⟩ := toNat_zip64Position hrecord
        obtain ⟨hat, hroom, hd⟩ := readDirectory64End_ok h
        rw [hoffset] at hat hroom hd
        refine ⟨e, hused, .inr ⟨_, hrecord, hat, hroom, ?_⟩⟩
        have hlt := field_lt
          (env.content.bytes.drop (zip64Position env.content.bytes e).toNat) 48 8
        rw [hd, UInt64.toNat_ofNat']
        omega
      · next hneg =>
        cases h
        exact ⟨e, hused, .inl ⟨if_neg fun hzip64 => hneg hzip64.2, hself⟩⟩
  · next hplain =>
    cases h
    exact ⟨e, hused, .inl ⟨if_neg fun hzip64 => hplain hzip64.1, hself⟩⟩

/-- An offset that is declared is read when no call fails, unless it is taken for a
negative number. -/
theorem readDirectoryEnd_declared {content : FileBytes} {offset : Nat}
    (h : DeclaresOffset content.bytes offset) (hlt : offset < 2 ^ 63) (s : Session) :
    ∃ comment d s', readDirectoryEnd (plainEnv content) content.bytes.length s =
        (.ok (comment, d), s') ∧
      d.directoryOffset.toNat = offset := by
  obtain ⟨e, hused, hdeclared⟩ := h
  have hfits := endRecordAt_fits hused.found
  have hlen : directoryEndLen = 22 := rfl
  obtain ⟨s₁, hsearch⟩ := searchDirectoryEnd_last hused.found hused.last offrange
    ⟨65 * 1024, by decide, hused.near⟩ s
  obtain ⟨d, s₂, hresolve, hoffset⟩ : ∃ d s₂, resolveZip64 (plainEnv content) e
      (parseDirectoryEnd (content.bytes.drop e)) s₁ = (.ok d, s₂) ∧
        d.directoryOffset.toNat = offset := by
    rcases hdeclared with ⟨hplain, rfl⟩ | ⟨p, hrecord, hat, hroom, rfl⟩
    · obtain ⟨s₂, hresolve⟩ := resolveZip64_plain content (e := e)
        (d := parseDirectoryEnd (content.bytes.drop e)) (by omega) (fun hzip64 => by
          rw [zip64Record, if_pos hzip64] at hplain
          cases hplain) s₁
      refine ⟨_, s₂, hresolve, ?_⟩
      change (UInt64.ofNat (field (content.bytes.drop e) 16 4)).toNat = _
      rw [UInt64.toNat_ofNat']
      omega
    · obtain ⟨hrefers, hpos, hp, -⟩ := toNat_zip64Position hrecord
      obtain ⟨s₂, hfind⟩ := findDirectory64End_plain content (e := e) (by omega) s₁
      obtain ⟨s₃, hread⟩ := readAt_of_room content s₂ hroom
      have hsig : field ((content.bytes.drop p).take directory64EndLen) 0 4 =
          directory64EndSignature := by
        rw [field, List.drop_zero, List.take_take]
        exact hat
      have hvalue : field ((content.bytes.drop p).take directory64EndLen) 48 8 =
          field (content.bytes.drop p) 48 8 := by
        rw [field, field, List.drop_take, List.take_take]
        rfl
      refine ⟨{
        directoryRecords := field ((content.bytes.drop p).take directory64EndLen) 32 8
        directorySize := field ((content.bytes.drop p).take directory64EndLen) 40 8
        directoryOffset := UInt64.ofNat
          (field ((content.bytes.drop p).take directory64EndLen) 48 8) }, s₃, ?_, ?_⟩
      · rw [resolveZip64, if_pos hrefers, hfind]
        dsimp only
        rw [if_pos hpos, hp, readDirectory64End, hread]
        dsimp only
        rw [if_neg (not_not.mpr hsig)]
      · dsimp only
        rw [hvalue, UInt64.toNat_ofNat']
        omega
  refine ⟨_, d, s₂, readDirectoryEnd_eq_ok_iff.mpr ⟨content.bytes.drop e, e, s₁, hsearch,
    ?_, ?_, rfl, hresolve, by omega, by omega⟩, hoffset⟩
  · rw [List.length_drop]
    omega
  · rw [List.length_drop, List.length_drop]
    omega

end Baulk.Zip
