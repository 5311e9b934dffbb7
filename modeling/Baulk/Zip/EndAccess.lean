import Baulk.Zip.Listing

/-!
# Accesses to the buffers of the end records

The functions that find and read the end records are repeated here with accesses
that fail when they are out of range.  None does, whatever the file holds and
whatever calls fail.  The offset of the directory is the one thing that is not
checked against the size of the file.
-/

namespace Baulk.Zip

/-! ## Checked accesses -/

/-- The bytes at `i` and behind are these.  The comparison stops at the first one that
differs. -/
def matchesAt (b : Bytes) (i : Nat) : Bytes → Option Bool
  | [] => some true
  | c :: cs => do
      let x ← b[i]?
      if x = c then matchesAt b (i + 1) cs else some false

theorem matchesAt_eq {b : Bytes} {i : Nat} {cs : Bytes} (h : i + cs.length ≤ b.length) :
    matchesAt b i cs = some ((b.drop i).take cs.length == cs) := by
  induction cs generalizing i with
  | nil => rfl
  | cons c cs ih =>
      rw [List.length_cons] at h
      have hlt : i < b.length := by omega
      have hdrop : b.drop i = b[i] :: b.drop (i + 1) := List.drop_eq_getElem_cons hlt
      rw [matchesAt, List.getElem?_eq_getElem hlt, hdrop, List.length_cons,
        List.take_succ_cons]
      change (if b[i] = c then _ else _) = _
      by_cases heq : b[i] = c
      · rw [if_pos heq, ih (by omega), heq, List.cons_beq_cons, beq_self_eq_true,
          Bool.true_and]
      · rw [if_neg heq, List.cons_beq_cons, beq_false_of_ne heq, Bool.false_and]

def bytesAt (b : Bytes) (offset : Nat) : Nat → Option Bytes
  | 0 => some []
  | width + 1 => do
      let x ← b[offset]?
      let xs ← bytesAt b (offset + 1) width
      some (x :: xs)

theorem bytesAt_eq {b : Bytes} {offset width : Nat} (h : offset + width ≤ b.length) :
    bytesAt b offset width = some ((b.drop offset).take width) := by
  induction width generalizing offset with
  | zero => rfl
  | succ width ih =>
      have hlt : offset < b.length := by omega
      rw [bytesAt, List.getElem?_eq_getElem hlt, ih (by omega),
        List.drop_eq_getElem_cons hlt]
      rfl

/-- `Read` of a number. -/
def fieldChecked (b : Bytes) (offset width : Nat) : Option Nat :=
  (bytesAt b offset width).map leValue

theorem fieldChecked_eq {b : Bytes} {offset width : Nat} (h : offset + width ≤ b.length) :
    fieldChecked b offset width = some (field b offset width) := by
  rw [fieldChecked, bytesAt_eq h]
  rfl

/-- The view of `n` bytes from an offset on. -/
def viewChecked (b : Bytes) (offset n : Nat) : Option Bytes :=
  if offset + n ≤ b.length then some ((b.drop offset).take n) else none

/-! ## The functions with checked accesses -/

/-- The test in the loop of `findSignatureInBlock`. -/
def endRecordAtChecked (b : Bytes) (i : Nat) : Option Bool := do
  if ← matchesAt b i [0x50, 0x4b, 0x05, 0x06] then
    let low ← b[i + directoryEndLen - 2]?
    let high ← b[i + directoryEndLen - 1]?
    some (decide ((low.toNat ||| high.toNat <<< 8) + directoryEndLen + i ≤ b.length))
  else some false

def lastEndRecordChecked (b : Bytes) : Nat → Option (Option Nat)
  | 0 => some none
  | i + 1 => do
      if ← endRecordAtChecked b i then some (some i) else lastEndRecordChecked b i

/-- `findSignatureInBlock`. -/
def findSignatureInBlockChecked (b : Bytes) : Option (Option Nat) :=
  lastEndRecordChecked b (b.length + 1 - directoryEndLen)

/-- One round of the loop of `readDirectoryEnd`. -/
def searchBlockChecked (env : Env) (size range : Nat) (s : Session) :
    Option (Except ErrorCode (Option (Bytes × Nat)) × Session) :=
  let blen := min range size
  match readAt env blen (UInt64.ofNat (size - blen)) s with
  | (.error ec, s) => some (.error ec, s)
  | (.ok buffer, s) => do
      match ← findSignatureInBlockChecked buffer with
      | some p =>
          let record ← viewChecked buffer p (blen - p)
          some (.ok (some (record, size - blen + p)), s)
      | none => some (.ok none, s)

def searchDirectoryEndChecked (env : Env) (size : Nat) : List Nat → Session →
    Option (Except ErrorCode (Bytes × Nat) × Session)
  | [], s => some (.error notValid, s)
  | range :: ranges, s => do
      match ← searchBlockChecked env size range s with
      | (.error ec, s) => some (.error ec, s)
      | (.ok (some found), s) => some (.ok found, s)
      | (.ok none, s) =>
          if ranges = [] ∨ min range size = size then some (.error notValid, s)
          else searchDirectoryEndChecked env size ranges s

/-- The fields of an end record, those that nothing uses among them. -/
def parseDirectoryEndChecked (record : Bytes) : Option DirectoryEnd := do
  let _ ← fieldChecked record 4 2
  let _ ← fieldChecked record 6 2
  let _ ← fieldChecked record 8 2
  let directoryRecords ← fieldChecked record 10 2
  let directorySize ← fieldChecked record 12 4
  let directoryOffset ← fieldChecked record 16 4
  some ⟨directoryRecords, directorySize, UInt64.ofNat directoryOffset⟩

def parseLocatorChecked (buffer : Bytes) : Option Int := do
  if (← fieldChecked buffer 0 4) ≠ directory64LocSignature then return -1
  if (← fieldChecked buffer 4 4) ≠ 0 then return -1
  let p ← fieldChecked buffer 8 8
  if (← fieldChecked buffer 16 4) ≠ 1 then return -1
  return (UInt64.ofNat p).toInt64.toInt

/-- `findDirectory64End`. -/
def findDirectory64EndChecked (env : Env) (directoryEndOffset : Nat) (s : Session) :
    Option (Except ErrorCode Int × Session) :=
  if directoryEndOffset < directory64LocLen then some (.ok (-1), s)
  else
    match readAt env directory64LocLen
        (UInt64.ofNat (directoryEndOffset - directory64LocLen)) s with
    | (.error ec, s) => some (.error ec, s)
    | (.ok buffer, s) => do
        let p ← parseLocatorChecked buffer
        some (.ok p, s)

/-- `readDirectory64End`. -/
def readDirectory64EndChecked (env : Env) (offset : UInt64) (s : Session) :
    Option (Except ErrorCode DirectoryEnd × Session) :=
  match readAt env directory64EndLen offset s with
  | (.error ec, s) => some (.error ec, s)
  | (.ok buffer, s) => do
      if (← fieldChecked buffer 0 4) ≠ directory64EndSignature then
        return (.error notValid, s)
      let _ ← fieldChecked buffer 16 4
      let _ ← fieldChecked buffer 20 4
      let _ ← fieldChecked buffer 24 8
      let directoryRecords ← fieldChecked buffer 32 8
      let directorySize ← fieldChecked buffer 40 8
      let directoryOffset ← fieldChecked buffer 48 8
      return (.ok ⟨directoryRecords, directorySize, UInt64.ofNat directoryOffset⟩, s)

/-- The zip64 part of `readDirectoryEnd`. -/
def resolveZip64Checked (env : Env) (directoryEndOffset : Nat) (d : DirectoryEnd)
    (s : Session) : Option (Except ErrorCode DirectoryEnd × Session) :=
  if d.refersToZip64 then do
    match ← findDirectory64EndChecked env directoryEndOffset s with
    | (.error ec, s) => some (.error ec, s)
    | (.ok p, s) =>
        if 0 < p then readDirectory64EndChecked env (UInt64.ofNat p.toNat) s
        else some (.ok d, s)
  else some (.ok d, s)

/-- `readDirectoryEnd`. -/
def readDirectoryEndChecked (env : Env) (size : Nat) (s : Session) :
    Option (Except ErrorCode (Bytes × DirectoryEnd) × Session) := do
  match ← searchDirectoryEndChecked env size offrange s with
  | (.error ec, s) => some (.error ec, s)
  | (.ok (record, directoryEndOffset), s) =>
      if record.length < directoryEndLen then some (.error notValid, s)
      else
        let d ← parseDirectoryEndChecked record
        let commentLen ← fieldChecked record 20 2
        if (record.drop directoryEndLen).length < commentLen then
          some (.error (ErrorCode.general (wide "zip: invalid comment length")), s)
        else
          let comment ← viewChecked record directoryEndLen commentLen
          match ← resolveZip64Checked env directoryEndOffset d s with
          | (.error ec, s) => some (.error ec, s)
          | (.ok d, s) =>
              if 2 ^ 63 ≤ d.directoryOffset.toNat ∨ size = 0 then
                some (.error notValid, s)
              else some (.ok (comment.takeWhile (· != 0), d), s)

/-! ## Every access is in range -/

/-- The length of the comment, put together from two bytes. -/
theorem shiftLeft_or_eq (low high : UInt8) :
    low.toNat ||| high.toNat <<< 8 = leValue [low, high] := by
  have hlow : low.toNat < 2 ^ 8 := low.toNat_lt
  rw [Nat.or_comm, ← Nat.shiftLeft_add_eq_or_of_lt hlow, Nat.shiftLeft_eq]
  simp only [leValue, List.foldr_cons, List.foldr_nil]
  omega

theorem endRecordAtChecked_eq {b : Bytes} {i : Nat} (h : i + directoryEndLen ≤ b.length) :
    endRecordAtChecked b i = some (endRecordAt b i) := by
  have hlen : directoryEndLen = 22 := rfl
  have hlow : i + directoryEndLen - 2 < b.length := by omega
  have hhigh : i + directoryEndLen - 1 < b.length := by omega
  have hvalue : field b (i + directoryEndLen - 2) 2 =
      b[i + directoryEndLen - 2].toNat ||| b[i + directoryEndLen - 1].toNat <<< 8 := by
    rw [shiftLeft_or_eq, field, List.drop_eq_getElem_cons hlow,
      show i + directoryEndLen - 2 + 1 = i + directoryEndLen - 1 by omega,
      List.drop_eq_getElem_cons hhigh]
    rfl
  have hmatch : matchesAt b i [0x50, 0x4b, 0x05, 0x06] =
      some ((b.drop i).take 4 == [0x50, 0x4b, 0x05, 0x06]) :=
    matchesAt_eq (by simp only [List.length_cons, List.length_nil]; omega)
  rw [endRecordAtChecked, hmatch, List.getElem?_eq_getElem hlow,
    List.getElem?_eq_getElem hhigh, endRecordAt, hvalue]
  change (if (b.drop i).take 4 == [0x50, 0x4b, 0x05, 0x06] then _ else _) = _
  split
  · next hsig =>
    rw [hsig, Bool.true_and]
    rfl
  · next hsig =>
    rw [Bool.not_eq_true] at hsig
    rw [hsig, Bool.false_and]

theorem lastEndRecordChecked_eq {b : Bytes} {bound : Nat}
    (h : bound ≤ b.length + 1 - directoryEndLen) :
    lastEndRecordChecked b bound = some (lastEndRecord b bound) := by
  induction bound with
  | zero => rfl
  | succ i ih =>
      have hrecord := endRecordAtChecked_eq (b := b) (i := i) (by omega)
      rw [lastEndRecordChecked, hrecord, lastEndRecord, ih (by omega)]
      change (if endRecordAt b i = true then _ else _) = _
      split <;> rfl

theorem findSignatureInBlockChecked_eq (b : Bytes) :
    findSignatureInBlockChecked b = some (findSignatureInBlock b) :=
  lastEndRecordChecked_eq le_rfl

variable {env : Env} {s s' : Session}

theorem viewChecked_rest {b : Bytes} {p : Nat} (h : p ≤ b.length) :
    viewChecked b p (b.length - p) = some (b.drop p) := by
  rw [viewChecked, if_pos (by omega), List.take_of_length_le (by rw [List.length_drop])]

theorem searchBlockChecked_eq (env : Env) (size range : Nat) (s : Session) :
    searchBlockChecked env size range s = some (searchBlock env size range s) := by
  unfold searchBlockChecked searchBlock
  dsimp only
  rcases hread : readAt env (min range size) (UInt64.ofNat (size - min range size)) s with
    ⟨ec | buffer, s₁⟩
  · rfl
  · dsimp only
    rw [findSignatureInBlockChecked_eq]
    cases hfind : findSignatureInBlock buffer with
    | none => rfl
    | some p =>
        have hfits := endRecordAt_fits (findSignatureInBlock_some hfind).1
        have hlen : directoryEndLen = 22 := rfl
        change (viewChecked buffer p (min range size - p)).bind _ = _
        rw [← readAt_length hread, viewChecked_rest (by omega)]
        rfl

theorem searchDirectoryEndChecked_eq (env : Env) (size : Nat) (ranges : List Nat)
    (s : Session) :
    searchDirectoryEndChecked env size ranges s =
      some (searchDirectoryEnd env size ranges s) := by
  induction ranges generalizing s with
  | nil => rfl
  | cons range ranges ih =>
      rw [searchDirectoryEndChecked, searchBlockChecked_eq, searchDirectoryEnd]
      rcases searchBlock env size range s with ⟨ec | found, s₁⟩
      · rfl
      · cases found with
        | some found => rfl
        | none =>
            change (if ranges = [] ∨ min range size = size then _ else _) = _
            dsimp only
            split
            · rfl
            · exact ih s₁

theorem parseDirectoryEndChecked_eq {record : Bytes} (h : directoryEndLen ≤ record.length) :
    parseDirectoryEndChecked record = some (parseDirectoryEnd record) := by
  rw [directoryEndLen] at h
  unfold parseDirectoryEndChecked
  repeat rw [fieldChecked_eq (by omega)]
  rfl

theorem parseLocatorChecked_eq {buffer : Bytes} (h : buffer.length = directory64LocLen) :
    parseLocatorChecked buffer = some (parseLocator buffer) := by
  rw [directory64LocLen] at h
  unfold parseLocatorChecked parseLocator
  repeat rw [fieldChecked_eq (by omega)]
  dsimp only [Option.bind_eq_bind, Option.bind_some]
  split
  · rfl
  · split
    · rfl
    · split <;> rfl

theorem findDirectory64EndChecked_eq (env : Env) (e : Nat) (s : Session) :
    findDirectory64EndChecked env e s = some (findDirectory64End env e s) := by
  unfold findDirectory64EndChecked findDirectory64End
  split
  · rfl
  · rcases hread : readAt env directory64LocLen (UInt64.ofNat (e - directory64LocLen)) s with
      ⟨ec | buffer, s₁⟩
    · rfl
    · dsimp only
      rw [parseLocatorChecked_eq (readAt_length hread)]
      rfl

theorem readDirectory64EndChecked_eq (env : Env) (offset : UInt64) (s : Session) :
    readDirectory64EndChecked env offset s = some (readDirectory64End env offset s) := by
  unfold readDirectory64EndChecked readDirectory64End
  rcases hread : readAt env directory64EndLen offset s with ⟨ec | buffer, s₁⟩
  · rfl
  · have hlength := readAt_length hread
    rw [directory64EndLen] at hlength
    dsimp only
    repeat rw [fieldChecked_eq (by omega)]
    dsimp only [Option.bind_eq_bind, Option.bind_some]
    split <;> rfl

theorem resolveZip64Checked_eq (env : Env) (e : Nat) (d : DirectoryEnd) (s : Session) :
    resolveZip64Checked env e d s = some (resolveZip64 env e d s) := by
  unfold resolveZip64Checked resolveZip64
  rw [findDirectory64EndChecked_eq]
  split
  · rcases findDirectory64End env e s with ⟨ec | p, s₁⟩
    · rfl
    · dsimp only [Option.bind_eq_bind, Option.bind_some]
      rw [readDirectory64EndChecked_eq]
      split <;> rfl
  · rfl

/-- No access is out of range, whatever the size that the reader was given. -/
theorem readDirectoryEndChecked_eq (env : Env) (size : Nat) (s : Session) :
    readDirectoryEndChecked env size s = some (readDirectoryEnd env size s) := by
  unfold readDirectoryEndChecked readDirectoryEnd
  rw [searchDirectoryEndChecked_eq]
  rcases searchDirectoryEnd env size offrange s with ⟨ec | ⟨record, e⟩, s₁⟩
  · rfl
  · dsimp only [Option.bind_eq_bind, Option.bind_some]
    split
    · rfl
    · next hrecord =>
      rw [not_lt] at hrecord
      have hlen : directoryEndLen = 22 := rfl
      rw [parseDirectoryEndChecked_eq hrecord, fieldChecked_eq (by omega)]
      dsimp only [Option.bind_some]
      split
      · rfl
      · next hcomment =>
        rw [not_lt, List.length_drop] at hcomment
        rw [viewChecked, if_pos (by omega), resolveZip64Checked_eq]
        dsimp only [Option.bind_some]
        rcases resolveZip64 env e (parseDirectoryEnd record) s₁ with ⟨ec | d, s₂⟩
        · rfl
        · dsimp only
          split <;> rfl

/-! ## Sound ends -/

/-- The file ends with an end record at `e` and the comment that this record declares,
and no signature of an end record stands behind. -/
structure EndsWithRecord (content : Bytes) (e : Nat) : Prop where
  signature : (content.drop e).take 4 = [0x50, 0x4b, 0x05, 0x06]
  length_eq : e + directoryEndLen + field (content.drop e) 20 2 = content.length
  last : ∀ i, e < i → (content.drop i).take 4 ≠ [0x50, 0x4b, 0x05, 0x06]

theorem EndsWithRecord.used {content : Bytes} {e : Nat} (h : EndsWithRecord content e) :
    UsedRecord content e where
  found := by
    have hfield : field content (e + directoryEndLen - 2) 2 =
        field (content.drop e) 20 2 := by
      rw [field, field, List.drop_drop]
      rfl
    have hlength := h.length_eq
    rw [endRecordAt, h.signature, hfield, beq_self_eq_true, Bool.true_and,
      decide_eq_true_eq]
    omega
  last i hlt := by
    rw [endRecordAt, beq_false_of_ne (h.last i hlt), Bool.false_and]
  near := by
    -- The comment is short enough for the larger block.
    have hlength := h.length_eq
    have hcomment := field_lt (content.drop e) 20 2
    rw [directoryEndLen] at hlength
    omega

/-- What holds of the end of the directory whenever one is read. -/
structure EndRead (content comment : Bytes) (d : DirectoryEnd) (e : Nat) : Prop where
  used : UsedRecord content e
  fits : e + directoryEndLen + field (content.drop e) 20 2 ≤ content.length
  comment_eq : comment = Entry.cstring ((content.drop (e + directoryEndLen)).take
    (field (content.drop e) 20 2))
  declared : DeclaresOffset content d.directoryOffset.toNat
  offset_lt : d.directoryOffset.toNat < 2 ^ 63

theorem readDirectoryEnd_ok {comment : Bytes} {d : DirectoryEnd}
    (h : readDirectoryEnd env env.content.bytes.length s = (.ok (comment, d), s')) :
    ∃ e s₁, searchDirectoryEnd env env.content.bytes.length offrange s =
        (.ok (env.content.bytes.drop e, e), s₁) ∧
      EndRead env.content.bytes comment d e := by
  obtain ⟨record, e, s₁, hsearch, -, -, hcomment, hresolve, hlt, -⟩ :=
    readDirectoryEnd_eq_ok_iff.mp h
  obtain ⟨rfl, hused⟩ := searchDirectoryEnd_used (by decide) hsearch
  rw [List.drop_drop] at hcomment
  exact ⟨e, s₁, hsearch, hused, endRecordAt_fits hused.found, hcomment,
    resolveZip64_ok hused hresolve, hlt⟩

/-- The end record at `e` and its comment are in the file, and the offset of the
directory is. -/
structure EndWithin (content comment : Bytes) (d : DirectoryEnd) (e : Nat) : Prop where
  fits : e + directoryEndLen + field (content.drop e) 20 2 ≤ content.length
  comment_eq : comment = Entry.cstring ((content.drop (e + directoryEndLen)).take
    (field (content.drop e) 20 2))
  offset_lt : d.directoryOffset.toNat < content.length

/-- What the reader relies on when it has read the end of the directory of a file,
whatever calls fail. -/
structure EndSound (content : FileBytes) : Prop where
  within : ∀ (env : Env) (s s' : Session) (comment : Bytes) (d : DirectoryEnd),
    env.content = content →
    readDirectoryEnd env content.bytes.length s = (.ok (comment, d), s') →
    ∃ e s₁, searchDirectoryEnd env content.bytes.length offrange s =
        (.ok (content.bytes.drop e, e), s₁) ∧
      EndWithin content.bytes comment d e
  found : ∀ e, EndsWithRecord content.bytes e → ∀ s, ∃ s',
    searchDirectoryEnd (plainEnv content) content.bytes.length offrange s =
      (.ok (content.bytes.drop e, e), s')
  found_only : ∀ e, EndsWithRecord content.bytes e →
    ∀ (env : Env) (s s' : Session) (record : Bytes) (e' : Nat), env.content = content →
    searchDirectoryEnd env content.bytes.length offrange s = (.ok (record, e'), s') →
    e' = e
  in_range : ∀ (env : Env) (size : Nat) (s : Session), env.content = content →
    readDirectoryEndChecked env size s = some (readDirectoryEnd env size s)

/-- The last check compares the size of the file with zero, and not with the offset of
the directory: an offset behind the end of the file passes. -/
theorem endSound_iff (content : FileBytes) :
    EndSound content ↔
      ∀ offset, DeclaresOffset content.bytes offset →
        offset < content.bytes.length ∨ 2 ^ 63 ≤ offset := by
  constructor
  · intro hsound offset hdeclared
    by_contra hwild
    rw [not_or, not_lt, not_le] at hwild
    obtain ⟨comment, d, s', hread, hoffset⟩ :=
      readDirectoryEnd_declared hdeclared hwild.2 ⟨0, 0, []⟩
    obtain ⟨e, s₁, -, hwithin⟩ := hsound.within _ _ _ _ _ rfl hread
    have hlt := hwithin.offset_lt
    omega
  · intro hdeclared
    refine ⟨?_, ?_, ?_, fun env size s _ => readDirectoryEndChecked_eq env size s⟩
    · rintro env s s' comment d rfl hread
      obtain ⟨e, s₁, hsearch, hend⟩ := readDirectoryEnd_ok hread
      refine ⟨e, s₁, hsearch, hend.fits, hend.comment_eq, ?_⟩
      rcases hdeclared _ hend.declared with hlt | hneg
      · exact hlt
      · exact absurd hend.offset_lt (not_lt.mpr hneg)
    · intro e hends s
      exact searchDirectoryEnd_last hends.used.found hends.used.last offrange
        ⟨65 * 1024, by decide, hends.used.near⟩ s
    · rintro e hends env s s' record e' rfl hsearch
      exact (searchDirectoryEnd_used (by decide) hsearch).2.unique hends.used

/-- An end record whose directory would start far behind the end of the file. -/
def wildEndBytes : Bytes :=
  [0x50, 0x4b, 0x05, 0x06, 0, 0, 0, 0, 0, 0, 0, 0, 0, 0, 0, 0, 0xFF, 0xFF, 0xFF, 0x7F, 0, 0]

theorem length_wildEndBytes : wildEndBytes.length < 2 ^ 63 := by
  decide

def wildEndFile : FileBytes := ⟨wildEndBytes, length_wildEndBytes⟩

/-- The file of 22 bytes is read with an offset of the directory of `0x7FFFFFFF`. -/
theorem wildEndFile_not_endSound :
    (∃ comment d s', readDirectoryEnd (plainEnv wildEndFile) wildEndFile.bytes.length
        ⟨0, 0, []⟩ = (.ok (comment, d), s') ∧
      wildEndFile.bytes.length = 22 ∧ d.directoryOffset = 0x7FFFFFFF) ∧
    ¬ EndSound wildEndFile := by
  have hlast : ∀ i, 0 < i → endRecordAt wildEndFile.bytes i = false := by
    intro i hpos
    rw [Bool.eq_false_iff]
    intro hat
    have hfits := endRecordAt_fits hat
    have hlength : wildEndFile.bytes.length = 22 := rfl
    rw [directoryEndLen] at hfits
    omega
  have hat : endRecordAt wildEndFile.bytes 0 = true := by
    decide
  obtain ⟨s', hread⟩ :=
    readDirectoryEnd_last hat hlast (by decide) (fun _ => by decide) ⟨0, 0, []⟩
  refine ⟨⟨_, _, s', hread, rfl, rfl⟩, fun hsound => ?_⟩
  obtain ⟨e, s₁, -, hwithin⟩ := hsound.within _ _ _ _ _ rfl hread
  exact absurd hwithin.offset_lt (by decide)

end Baulk.Zip
