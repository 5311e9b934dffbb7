import Baulk.Pkg.Hash
import Baulk.Support.Cut

/-!
# Digests of files

`Sumizer` reads a file in pieces and passes them to a hasher.  `HashEqual` then
asks whether the digest ends with the expected text, so every ending of the
digest passes, and the empty text always does.
-/

namespace Baulk.Pkg

/-! ## Reading -/

/-- A hasher of `bela`, after `Initialize`.  What comes in two pieces counts as
one. -/
structure Hasher where
  State : Type
  initial : State
  update : State → Bytes → State
  finalize : State → WString
  update_append : ∀ s a b, update (update s a) b = update s (a ++ b)

def Hasher.digest (h : Hasher) (content : Bytes) : WString :=
  h.finalize (h.update h.initial content)

structure Hashers where
  sha224 : Hasher
  sha256 : Hasher
  sha384 : Hasher
  sha512 : Hasher
  sha3_224 : Hasher
  sha3_256 : Hasher
  sha3_384 : Hasher
  sha3_512 : Hasher
  blake3 : Hasher

/-- The `switch` of `FileHash`. -/
def Hashers.ofMethod (hashers : Hashers) : HashMethod → Hasher
  | .sha224 => hashers.sha224
  | .sha256 => hashers.sha256
  | .sha384 => hashers.sha384
  | .sha512 => hashers.sha512
  | .sha3_224 => hashers.sha3_224
  | .sha3_256 | .sha3 => hashers.sha3_256
  | .sha3_384 => hashers.sha3_384
  | .sha3_512 => hashers.sha3_512
  | .blake3 => hashers.blake3

/-- A file, and how reading it fails. -/
structure SummedFile where
  content : Bytes
  /-- `CreateFileW`. -/
  unopened : Option ErrorCode := none
  /-- `ReadFile`, the n-th time. -/
  unread : Nat → Option ErrorCode := fun _ => none

/-- `sizeof(bytes)`. -/
def pieceSize : Nat := 32678

/-- The loop of `filechecksum`. -/
def sumPieces (h : Hasher) (unread : Nat → Option ErrorCode) (round : Nat)
    (s : h.State) (rest : Bytes) : Except ErrorCode h.State :=
  match unread round with
  | some ec => .error ec
  | none =>
      let bytes := rest.take pieceSize
      let s := h.update s bytes
      if bytes.length < pieceSize then .ok s
      else sumPieces h unread (round + 1) s (rest.drop pieceSize)
  termination_by rest.length
  decreasing_by
    rename_i hfull
    rw [List.length_take, pieceSize] at hfull
    rw [List.length_drop, pieceSize]
    omega

def fileHash (hashers : Hashers) (file : SummedFile) : FileHash := fun m =>
  match file.unopened with
  | some ec => .error ec
  | none =>
      let h := hashers.ofMethod m
      (sumPieces h file.unread 0 h.initial file.content).map h.finalize

/-- No call of `ReadFile` fails up to the end of the file. -/
def SummedFile.Readable (file : SummedFile) : Prop :=
  file.unopened = none ∧
    ∀ i ≤ file.content.length / pieceSize, file.unread i = none

/-- The loop passes everything to the hasher, if it can read it. -/
theorem sumPieces_ok_iff {h : Hasher} {unread : Nat → Option ErrorCode}
    {round : Nat} {s s' : h.State} {rest : Bytes} :
    sumPieces h unread round s rest = .ok s' ↔
      (∀ i ≤ rest.length / pieceSize, unread (round + i) = none) ∧
        s' = h.update s rest := by
  fun_induction sumPieces h unread round s rest with
  | case1 round s rest ec hfail =>
      refine iff_of_false (by simp) fun hread => ?_
      have hnone := hread.1 0 (Nat.zero_le _)
      rw [Nat.add_zero, hfail] at hnone
      cases hnone
  | case2 round s rest hread bytes s₁ hlast =>
      rw [List.length_take] at hlast
      have hshort : rest.length < pieceSize := by omega
      have hone : rest.length / pieceSize = 0 := Nat.div_eq_of_lt hshort
      have hall : bytes = rest := List.take_of_length_le hshort.le
      rw [hone, Except.ok.injEq, ← hall]
      constructor
      · rintro rfl
        refine ⟨fun i hi => ?_, rfl⟩
        rw [Nat.le_zero.mp hi]
        exact hread
      · rintro ⟨-, rfl⟩
        rfl
  | case3 round s rest hread bytes s₁ hfull ih =>
      rw [List.length_take, not_lt] at hfull
      have hle : pieceSize ≤ rest.length := by omega
      have hpos : 0 < pieceSize := by decide
      have hdiv : rest.length / pieceSize =
          (rest.drop pieceSize).length / pieceSize + 1 := by
        rw [List.length_drop, ← Nat.div_eq_sub_div hpos hle]
      have hupdate : h.update s₁ (rest.drop pieceSize) = h.update s rest := by
        rw [h.update_append, List.take_append_drop]
      rw [ih, hupdate, hdiv]
      refine and_congr_left fun _ => ?_
      constructor
      · intro hrest i hi
        cases i with
        | zero => exact hread
        | succ i =>
            rw [Nat.add_comm i, ← Nat.add_assoc]
            exact hrest i (Nat.le_of_succ_le_succ hi)
      · intro hrest i hi
        rw [Nat.add_assoc, Nat.add_comm 1]
        exact hrest (i + 1) (Nat.succ_le_succ hi)

theorem fileHash_ok_iff {hashers : Hashers} {file : SummedFile} {m : HashMethod}
    {digest : WString} :
    fileHash hashers file m = .ok digest ↔
      file.Readable ∧ digest = (hashers.ofMethod m).digest file.content := by
  unfold fileHash SummedFile.Readable Hasher.digest
  cases file.unopened with
  | some ec => exact iff_of_false (by simp) (by simp)
  | none =>
      simp only
      constructor
      · intro h
        cases hsum : sumPieces (hashers.ofMethod m) file.unread 0
            (hashers.ofMethod m).initial file.content with
        | error ec =>
            rw [hsum] at h
            cases h
        | ok s =>
            rw [hsum] at h
            cases h
            obtain ⟨hread, rfl⟩ := sumPieces_ok_iff.mp hsum
            simp only [Nat.zero_add] at hread
            exact ⟨⟨trivial, hread⟩, rfl⟩
      · rintro ⟨⟨-, hread⟩, rfl⟩
        have hsum : sumPieces (hashers.ofMethod m) file.unread 0
            (hashers.ofMethod m).initial file.content = .ok
              ((hashers.ofMethod m).update (hashers.ofMethod m).initial
                file.content) :=
          sumPieces_ok_iff.mpr ⟨by simpa using hread, rfl⟩
        rw [hsum]
        rfl

/-! ## Comparing -/

/-- What an expected text stands for: a method, and the digest it asks for. -/
inductive Names : WString → HashMethod → WString → Prop
  | plain {value : WString} (hplain : (0x3A : WChar) ∉ value) :
      Names value .sha256 value
  | prefixed {name value : WString} {m : HashMethod}
      (hname : (0x3A : WChar) ∉ name)
      (hm : (asciiStrToUpper name, m) ∈ hnmaps) :
      Names (name ++ 0x3A :: value) m value

theorem names_plain_iff {text value : WString} {m : HashMethod}
    (h : (0x3A : WChar) ∉ text) :
    Names text m value ↔ m = .sha256 ∧ value = text := by
  constructor
  · intro hnames
    cases hnames with
    | plain _ => exact ⟨rfl, rfl⟩
    | prefixed _ _ => exact absurd (by simp) h
  · rintro ⟨rfl, rfl⟩
    exact .plain h

/-- Otherwise the first colon ends the name of the method. -/
theorem names_prefixed_iff {name value value' : WString} {m : HashMethod}
    (h : (0x3A : WChar) ∉ name) :
    Names (name ++ 0x3A :: value) m value' ↔
      (asciiStrToUpper name, m) ∈ hnmaps ∧ value' = value := by
  constructor
  · intro hnames
    generalize htext : name ++ 0x3A :: value = text at hnames
    cases hnames with
    | plain hplain =>
        subst htext
        exact absurd (by simp) hplain
    | prefixed hname hm =>
        obtain ⟨rfl, rfl⟩ := Support.cut_unique h hname htext
        exact ⟨hm, rfl⟩
  · rintro ⟨hm, rfl⟩
    exact .prefixed h hm

theorem lookup_hnmaps_iff {name : WString} {m : HashMethod} :
    hnmaps.lookup name = some m ↔ (name, m) ∈ hnmaps := by
  constructor
  · intro h
    obtain ⟨front, back, heq, -⟩ := List.lookup_eq_some_iff.mp h
    rw [heq]
    exact List.mem_append_right _ List.mem_cons_self
  · intro h
    have hall : ∀ entry ∈ hnmaps, hnmaps.lookup entry.1 = some entry.2 := by
      decide
    exact hall _ h

theorem Names.unique {text value value' : WString} {m m' : HashMethod}
    (h : Names text m value) (h' : Names text m' value') :
    m = m' ∧ value = value' := by
  rcases Support.cut_cases text (0x3A : WChar) with hmem | ⟨name, v, rfl, hmem⟩
  · obtain ⟨rfl, rfl⟩ := (names_plain_iff hmem).mp h
    obtain ⟨rfl, rfl⟩ := (names_plain_iff hmem).mp h'
    exact ⟨rfl, rfl⟩
  · obtain ⟨hm, rfl⟩ := (names_prefixed_iff hmem).mp h
    obtain ⟨hm', rfl⟩ := (names_prefixed_iff hmem).mp h'
    rw [← lookup_hnmaps_iff] at hm hm'
    exact ⟨Option.some.inj (hm.symm.trans hm'), rfl⟩

theorem digestEqual_isOk_iff {digests : FileHash} {m : HashMethod}
    {value : WString} :
    (digestEqual digests m value).isOk = true ↔
      ∃ digest, digests m = .ok digest ∧
        endsWithIgnoreCase digest value = true := by
  unfold digestEqual
  cases digests m with
  | error ec => exact iff_of_false Bool.false_ne_true (by simp)
  | ok digest =>
      simp only [Except.ok.injEq, exists_eq_left']
      by_cases h : endsWithIgnoreCase digest value = true
      · rw [if_pos h]
        exact iff_of_true rfl h
      · rw [if_neg h]
        exact iff_of_false Bool.false_ne_true h

theorem hashMatches_iff {digests : FileHash} {text : WString} :
    hashMatches digests text = true ↔
      ∃ m value, Names text m value ∧ ∃ digest, digests m = .ok digest ∧
        endsWithIgnoreCase digest value = true := by
  unfold hashMatches hashEqual
  rcases Support.cut_cases text (0x3A : WChar) with h | ⟨name, value, rfl, h⟩
  · rw [Support.findIdx?_eq_none_iff_not_mem.mpr h]
    refine digestEqual_isOk_iff.trans ⟨?_, ?_⟩
    · intro hends
      exact ⟨_, _, .plain h, hends⟩
    · rintro ⟨m, value, hnames, hends⟩
      obtain ⟨rfl, rfl⟩ := (names_plain_iff h).mp hnames
      exact hends
  · rw [Support.findIdx?_append_cons h]
    simp only [List.take_left, List.drop_append, Nat.add_sub_cancel_left]
    rw [List.drop_of_length_le (Nat.le_succ _), List.nil_append, List.drop_one,
      List.tail_cons]
    cases hlookup : hnmaps.lookup (asciiStrToUpper name) with
    | none =>
        refine iff_of_false Bool.false_ne_true ?_
        rintro ⟨m, value', hnames, -⟩
        have hm := lookup_hnmaps_iff.mpr ((names_prefixed_iff h).mp hnames).1
        rw [hlookup] at hm
        cases hm
    | some m =>
        refine digestEqual_isOk_iff.trans ⟨?_, ?_⟩
        · intro hends
          exact ⟨m, value, .prefixed h (lookup_hnmaps_iff.mp hlookup), hends⟩
        · rintro ⟨m', value', hnames, hends⟩
          obtain ⟨hm', rfl⟩ := (names_prefixed_iff h).mp hnames
          rw [← lookup_hnmaps_iff, hlookup, Option.some.injEq] at hm'
          exact hm' ▸ hends

/-! ## The complete digest -/

/-- The expected text asks for the complete digest of the file. -/
def AsksForDigest (hashers : Hashers) (file : SummedFile) (text : WString) : Prop :=
  ∃ m value, Names text m value ∧
    equalsIgnoreCase ((hashers.ofMethod m).digest file.content) value = true

/-- The expected text asks for the end of the digest, without its beginning. -/
def AsksForEnding (hashers : Hashers) (file : SummedFile) (text : WString) : Prop :=
  ∃ m value, Names text m value ∧
    value.length < ((hashers.ofMethod m).digest file.content).length ∧
    endsWithIgnoreCase ((hashers.ofMethod m).digest file.content) value = true

theorem endsWithIgnoreCase_of_length {text value : WString}
    (h : text.length ≤ value.length) :
    endsWithIgnoreCase text value = equalsIgnoreCase text value := by
  unfold endsWithIgnoreCase
  by_cases heq : value.length = text.length
  · rw [heq, Nat.sub_self, List.drop_zero, decide_eq_true (Nat.le_refl _),
      Bool.true_and]
  · have hlt : ¬ value.length ≤ text.length := by omega
    rw [decide_eq_false hlt, Bool.false_and, eq_comm, Bool.eq_false_iff]
    intro hequal
    have hlen := congrArg List.length (equalsIgnoreCase_iff.mp hequal)
    rw [List.length_map, List.length_map] at hlen
    exact heq hlen.symm

theorem hashMatches_fileHash_iff {hashers : Hashers} {file : SummedFile}
    {text : WString} :
    hashMatches (fileHash hashers file) text = true ↔
      file.Readable ∧ (AsksForDigest hashers file text ∨
        AsksForEnding hashers file text) := by
  rw [hashMatches_iff]
  constructor
  · rintro ⟨m, value, hnames, digest, hdigest, hends⟩
    obtain ⟨hread, rfl⟩ := fileHash_ok_iff.mp hdigest
    refine ⟨hread, ?_⟩
    by_cases hlen : value.length <
        ((hashers.ofMethod m).digest file.content).length
    · exact .inr ⟨m, value, hnames, hlen, hends⟩
    · rw [endsWithIgnoreCase_of_length (not_lt.mp hlen)] at hends
      exact .inl ⟨m, value, hnames, hends⟩
  · rintro ⟨hread, ⟨m, value, hnames, hequal⟩ | ⟨m, value, hnames, -, hends⟩⟩
    · have hlen := congrArg List.length (equalsIgnoreCase_iff.mp hequal)
      rw [List.length_map, List.length_map] at hlen
      rw [← endsWithIgnoreCase_of_length hlen.le] at hequal
      exact ⟨m, value, hnames, _, fileHash_ok_iff.mpr ⟨hread, rfl⟩, hequal⟩
    · exact ⟨m, value, hnames, _, fileHash_ok_iff.mpr ⟨hread, rfl⟩, hends⟩

/-- What passes is the complete digest, except for the endings of it. -/
theorem hashEqual_complete_iff (hashers : Hashers) (file : SummedFile)
    (text : WString) :
    (hashMatches (fileHash hashers file) text = true →
        AsksForDigest hashers file text) ↔
      ¬ (file.Readable ∧ AsksForEnding hashers file text) := by
  rw [hashMatches_fileHash_iff]
  constructor
  · rintro h ⟨hread, hending⟩
    obtain ⟨m, value, hnames, hequal⟩ := h ⟨hread, .inr hending⟩
    obtain ⟨m', value', hnames', hlen, -⟩ := hending
    obtain ⟨rfl, rfl⟩ := hnames.unique hnames'
    have hlength := congrArg List.length (equalsIgnoreCase_iff.mp hequal)
    rw [List.length_map, List.length_map] at hlength
    omega
  · rintro h ⟨hread, hdigest | hending⟩
    · exact hdigest
    · exact absurd ⟨hread, hending⟩ h

/-- The last four digits of the digest of the empty file. -/
theorem hashEqual_ending_passes :
    ¬ ∀ (hashers : Hashers) (file : SummedFile) (text : WString),
      hashMatches (fileHash hashers file) text = true →
        AsksForDigest hashers file text := by
  intro h
  let hasher : Hasher :=
    { State := Bytes
      initial := []
      update := (· ++ ·)
      finalize := fun _ => wide
        "e3b0c44298fc1c149afbf4c8996fb92427ae41e4649b934ca495991b7852b855"
      update_append := List.append_assoc }
  let hashers : Hashers :=
    { sha224 := hasher, sha256 := hasher, sha384 := hasher, sha512 := hasher
      sha3_224 := hasher, sha3_256 := hasher, sha3_384 := hasher
      sha3_512 := hasher, blake3 := hasher }
  let file : SummedFile := { content := [] }
  have hnames : Names (wide "b855") .sha256 (wide "b855") := .plain (by decide)
  have hlen : (wide "b855").length < (hasher.digest []).length := by decide
  have hends : endsWithIgnoreCase (hasher.digest []) (wide "b855") = true := by
    decide
  have hread : file.Readable := ⟨rfl, fun _ _ => rfl⟩
  obtain ⟨m, value, hnames', hequal⟩ := h hashers file (wide "b855")
    (hashMatches_fileHash_iff.mpr ⟨hread, .inr ⟨_, _, hnames, hlen, hends⟩⟩)
  obtain ⟨rfl, rfl⟩ := hnames.unique hnames'
  have hlength := congrArg List.length (equalsIgnoreCase_iff.mp hequal)
  rw [List.length_map, List.length_map] at hlength
  exact absurd hlength hlen.ne'

end Baulk.Pkg
