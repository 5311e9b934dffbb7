import Baulk.Net.Resume
import Baulk.Pkg.Digest

/-!
# The identity of a partial download

A part that was saved with one hash string is resumed with another if the two are
decoded alike.  The decoder takes two characters at a time, looks at the low bytes of at
most 64 pairs, and leaves zeros where the text has ended, so strings that do not spell
the same digest may be decoded alike, and strings that spell no digest are accepted.
-/

namespace Baulk.Net

open Pkg (HashMethod Names lookup_hnmaps_iff)

/-! ## Digests in hexadecimal -/

/-- The length of the digest of a method. -/
def digestSize : HashMethod → UInt16
  | .sha224 => 28
  | .sha256 => 32
  | .sha384 => 48
  | .sha512 => 64
  | .sha3 => 32
  | .sha3_224 => 28
  | .sha3_256 => 32
  | .sha3_384 => 48
  | .sha3_512 => 64
  | .blake3 => 32

/-- A digest as it is printed. -/
def hexText (digest : Bytes) : WString :=
  digest.flatMap fun byte =>
    [hexDigit false (byte.toNat / 16), hexDigit false (byte.toNat % 16)]

def isHexDigit (c : WChar) : Bool :=
  (wide "0123456789abcdefABCDEF").contains c

/-- A text names a method and spells a digest of its length. -/
def Spells (text : WString) (method : HashMethod) (digest : Bytes) : Prop :=
  ∃ digits, Names text method digits ∧ digest.length = (digestSize method).toNat ∧
    equalsIgnoreCase digits (hexText digest) = true

/-- Digits that are too few, or of odd number, or no digits. -/
def MalformedDigits (size : Nat) (digits : WString) : Prop :=
  digits.length < 2 * size ∨ digits.length % 2 = 1 ∨ ∃ c ∈ digits, isHexDigit c = false

/-- A text that names no method, or whose digits are malformed. -/
def Malformed (text : WString) : Prop :=
  ∀ {method digits}, Names text method digits →
    MalformedDigits (digestSize method).toNat digits

/-! ## Runs -/

/-- `file` is a part that `SaveOverlayData` has left with the hash `hashValue`. -/
def SavedWith (hashValue : WString) (file : Bytes) : Prop :=
  ∃ (env : DiskEnv) (part part' : FilePart) (disk disk' : Disk)
    (totalBytes currentBytes : Int64) (content : Bytes),
    disk.files part.path = some content ∧ content.length < 2 ^ 63 ∧
      part.saveOverlayData env hashValue totalBytes currentBytes disk =
        (.ok (), part', disk') ∧
      disk'.files part.path = some file

/-- `MakeFilePart` goes on with the part that it finds in `file`. -/
def ResumedWith (hashValue : WString) (file : Bytes) : Prop :=
  ∃ (env : DiskEnv) (p : WinPath) (part : FilePart) (disk disk' : Disk),
    disk.files (FilePart.partPath env p) = some file ∧
      FilePart.makeFilePart env p hashValue disk = (.ok part, disk') ∧
      part.currentBytes ≠ 0

/-- `hash_construct` refuses a text, and no part is saved or resumed with it. -/
structure Rejected (text : WString) : Prop where
  construct : ∃ ec, hashConstruct text = .error ec
  saved : ∀ file, ¬ SavedWith text file
  resumed : ∀ file, ¬ ResumedWith text file

/-- A part that was saved with one hash is resumed with the other only if both name the
same method and spell the same digest, and malformed texts are rejected. -/
structure Identifies (saved resumed : WString) : Prop where
  same : ∀ {file}, SavedWith saved file → ResumedWith resumed file →
    ∃ method digest, Spells saved method digest ∧ Spells resumed method digest
  rejects : ∀ text ∈ [saved, resumed], Malformed text → Rejected text

/-! ## What is accepted -/

/-- The low bytes of the pairs that are read are digits. -/
def Readable (digits : WString) : Prop :=
  ∀ c ∈ digits.take (2 * min (digits.length / 2) hashBytes), (hexval c.toUInt8).isSome = true

/-- The first 128 digits, with zeros for those that are missing. -/
def padded (digits : WString) : WString :=
  (digits.map asciiToLower ++ List.replicate (2 * hashBytes) 0x30).take (2 * hashBytes)

/-! ### Pairs of digits -/

theorem take_pairs (a b : WChar) (text : WString) (size : Nat) :
    (a :: b :: text).take (2 * min ((a :: b :: text).length / 2) (size + 1)) =
      a :: b :: text.take (2 * min (text.length / 2) size) := by
  have hcount : 2 * min ((a :: b :: text).length / 2) (size + 1) =
      2 * min (text.length / 2) size + 1 + 1 := by
    rw [List.length_cons, List.length_cons]
    omega
  rw [hcount, List.take_succ_cons, List.take_succ_cons]

/-- The decoder ends at the end of the text or of the buffer. -/
theorem short_or_full {digits : WString} {size : Nat}
    (h : ∀ a b text n, digits = a :: b :: text → size = n + 1 → False) :
    digits.length < 2 ∨ size = 0 := by
  by_contra hlong
  rw [not_or, Nat.not_lt] at hlong
  obtain ⟨a, rest, rfl⟩ := List.exists_cons_of_length_pos (l := digits) (by omega)
  obtain ⟨b, text, rfl⟩ := List.exists_cons_of_length_pos (l := rest) (by
    rw [List.length_cons] at hlong
    omega)
  exact h a b text (size - 1) rfl (by omega)

theorem hashDecode_of_short {digits : WString} {size : Nat}
    (h : digits.length < 2 ∨ size = 0) : hashDecode digits size = some [] := by
  rw [hashDecode.eq_def]
  split
  · simp only [List.length_cons, Nat.succ_ne_zero, or_false] at h
    omega
  · rfl

theorem decodeByteCouple_eq_some_iff {a b byte : UInt8} :
    decodeByteCouple a b = some byte ↔
      ∃ high low, hexval a = some high ∧ hexval b = some low ∧
        UInt8.ofNat (16 * high + low) = byte := by
  unfold decodeByteCouple
  cases hexval a with
  | none => simp
  | some high =>
      cases hexval b with
      | none => simp
      | some low => simp

theorem hashDecode_eq_some_iff {digits : WString} {size : Nat} :
    (∃ bytes, hashDecode digits size = some bytes) ↔
      ∀ c ∈ digits.take (2 * min (digits.length / 2) size),
        (hexval c.toUInt8).isSome = true := by
  induction digits, size using hashDecode.induct with
  | case1 a b text size hcouple =>
      rw [take_pairs, hashDecode, hcouple]
      refine iff_of_false (by simp) ?_
      intro hall
      obtain ⟨high, hhigh⟩ := Option.isSome_iff_exists.mp (hall a (by simp))
      obtain ⟨low, hlow⟩ := Option.isSome_iff_exists.mp (hall b (by simp))
      rw [decodeByteCouple_eq_some_iff.mpr ⟨high, low, hhigh, hlow, rfl⟩] at hcouple
      cases hcouple
  | case2 a b text size byte hcouple ih =>
      obtain ⟨high, low, hhigh, hlow, -⟩ := decodeByteCouple_eq_some_iff.mp hcouple
      rw [take_pairs, hashDecode, hcouple]
      simp only [List.forall_mem_cons, hhigh, hlow, Option.isSome_some, true_and, ← ih]
      constructor
      · rintro ⟨bytes, hbytes⟩
        obtain ⟨rest, hrest, -⟩ := Option.map_eq_some_iff.mp hbytes
        exact ⟨rest, hrest⟩
      · rintro ⟨rest, hrest⟩
        exact ⟨byte :: rest, by rw [hrest, Option.map_some]⟩
  | case3 digits size hshort =>
      have hend := short_or_full hshort
      have hzero : 2 * min (digits.length / 2) size = 0 := by omega
      rw [hzero, hashDecode_of_short hend]
      exact iff_of_true ⟨[], rfl⟩ (by simp)

theorem readable_iff {digits : WString} :
    Readable digits ↔ ∃ bytes, hashDecode digits hashBytes = some bytes :=
  hashDecode_eq_some_iff.symm

/-! ### Well-formed digits -/

theorem isHexDigit_spec {c : WChar} (h : isHexDigit c = true) :
    ∃ n < 16, hexval c.toUInt8 = some n ∧ asciiToLower c = hexDigit false n := by
  have hall : (wide "0123456789abcdefABCDEF").all (fun c =>
      (List.range 16).any fun n =>
        decide (hexval c.toUInt8 = some n ∧ asciiToLower c = hexDigit false n)) = true := by
    decide
  have hany := List.all_eq_true.mp hall c (List.contains_iff_mem.mp h)
  obtain ⟨n, hn, hdigit⟩ := List.any_eq_true.mp hany
  exact ⟨n, List.mem_range.mp hn, of_decide_eq_true hdigit⟩

theorem hashDecode_hex {digits : WString} {size : Nat}
    (hhex : ∀ c ∈ digits, isHexDigit c = true) (heven : digits.length % 2 = 0) :
    ∃ bytes, hashDecode digits size = some bytes ∧
      bytes.length = min (digits.length / 2) size ∧
      hexText bytes = (digits.map asciiToLower).take (2 * size) := by
  induction digits, size using hashDecode.induct with
  | case1 a b text size hcouple =>
      obtain ⟨high, -, hhigh, -⟩ := isHexDigit_spec (hhex a (by simp))
      obtain ⟨low, -, hlow, -⟩ := isHexDigit_spec (hhex b (by simp))
      rw [decodeByteCouple_eq_some_iff.mpr ⟨high, low, hhigh, hlow, rfl⟩] at hcouple
      cases hcouple
  | case2 a b text size byte hcouple ih =>
      obtain ⟨high, hhighLt, hhigh, hupper⟩ := isHexDigit_spec (hhex a (by simp))
      obtain ⟨low, hlowLt, hlow, hlower⟩ := isHexDigit_spec (hhex b (by simp))
      rw [decodeByteCouple_eq_some_iff.mpr ⟨high, low, hhigh, hlow, rfl⟩] at hcouple
      cases hcouple
      obtain ⟨bytes, hbytes, hlength, htext⟩ := ih
        (fun c hc => hhex c (by simp [hc]))
        (by
          rw [List.length_cons, List.length_cons] at heven
          omega)
      have hvalue : (UInt8.ofNat (16 * high + low)).toNat = 16 * high + low := by
        rw [UInt8.toNat_ofNat']
        omega
      have hdiv : (16 * high + low) / 16 = high := by omega
      have hmod : (16 * high + low) % 16 = low := by omega
      refine ⟨UInt8.ofNat (16 * high + low) :: bytes, ?_, ?_, ?_⟩
      · rw [hashDecode, decodeByteCouple_eq_some_iff.mpr ⟨high, low, hhigh, hlow, rfl⟩, hbytes]
        rfl
      · rw [List.length_cons, List.length_cons, List.length_cons, hlength]
        omega
      · rw [hexText, List.flatMap_cons, ← hexText, htext, hvalue, hdiv, hmod, ← hupper,
          ← hlower]
        rfl
  | case3 digits size hshort =>
      have hend := short_or_full hshort
      refine ⟨[], hashDecode_of_short hend, ?_, ?_⟩
      · rw [List.length_nil]
        omega
      · rcases hend with hend | rfl
        · have hnil : digits = [] := List.eq_nil_of_length_eq_zero (by omega)
          rw [hnil, List.map_nil, List.take_nil]
          rfl
        · rfl

theorem hexText_length (digest : Bytes) : (hexText digest).length = 2 * digest.length := by
  induction digest with
  | nil => rfl
  | cons byte digest ih =>
      rw [hexText, List.flatMap_cons, ← hexText, List.length_append, ih, List.length_cons]
      simp only [List.length_cons, List.length_nil]
      omega

theorem hexText_append (s t : Bytes) : hexText (s ++ t) = hexText s ++ hexText t :=
  List.flatMap_append

theorem hexText_zeros (n : Nat) :
    hexText (List.replicate n 0) = List.replicate (2 * n) 0x30 := by
  induction n with
  | zero => rfl
  | succ n ih =>
      rw [List.replicate_succ, hexText, List.flatMap_cons, ← hexText, ih]
      rfl

theorem hexText_lower (digest : Bytes) :
    (hexText digest).map asciiToLower = hexText digest := by
  have hdigit : ∀ {n : Nat}, n < 16 → asciiToLower (hexDigit false n) = hexDigit false n := by
    intro n hn
    have hall : (List.range 16).all (fun n =>
        asciiToLower (hexDigit false n) = hexDigit false n) = true := by
      decide
    exact of_decide_eq_true (List.all_eq_true.mp hall n (List.mem_range.mpr hn))
  induction digest with
  | nil => rfl
  | cons byte digest ih =>
      have hbyte := byte.toNat_lt
      rw [hexText, List.flatMap_cons, ← hexText, List.map_append, ih, List.map_cons,
        List.map_cons, hdigit (by omega), hdigit (by omega), List.map_nil]

theorem hexText_injective : Function.Injective hexText := by
  have hdigit : ∀ {m n : Nat}, m < 16 → n < 16 → hexDigit false m = hexDigit false n →
      m = n := by
    intro m n hm hn heq
    have hvalue : hexval (hexDigit false m).toUInt8 = some m := (hexDigit_le_and_hexval hm).2
    rw [heq, (hexDigit_le_and_hexval hn).2] at hvalue
    exact (Option.some.inj hvalue).symm
  intro s
  induction s with
  | nil =>
      intro t heq
      have hlength := congrArg List.length heq
      rw [hexText_length, hexText_length, List.length_nil] at hlength
      exact (List.eq_nil_of_length_eq_zero (by omega)).symm
  | cons x s ih =>
      intro t heq
      cases t with
      | nil => cases heq
      | cons y t =>
          simp only [hexText, List.flatMap_cons, List.cons_append, List.nil_append,
            List.cons.injEq] at heq
          obtain ⟨hhigh, hlow, hrest⟩ := heq
          have hx := x.toNat_lt
          have hy := y.toNat_lt
          have h16 := hdigit (by omega) (by omega) hhigh
          have h1 := hdigit (by omega) (by omega) hlow
          have hbyte : x = y := UInt8.toNat_inj.mp (by omega)
          rw [hbyte, ih hrest]

/-- What is stored for well-formed digits, zeros included, is what they spell when they
are padded with zeros. -/
theorem hexText_stored {digits : WString} {bytes : Bytes}
    (hhex : ∀ c ∈ digits, isHexDigit c = true) (heven : digits.length % 2 = 0)
    (hdecode : hashDecode digits hashBytes = some bytes) :
    hexText (bytes ++ List.replicate (hashBytes - bytes.length) 0) = padded digits := by
  obtain ⟨bytes', hdecode', hlength, htext⟩ := @hashDecode_hex _ hashBytes hhex heven
  cases hdecode.symm.trans hdecode'
  have hzeros : min (2 * hashBytes - digits.length) (2 * hashBytes) =
      2 * (hashBytes - bytes.length) := by omega
  rw [hexText_append, hexText_zeros, htext, padded, List.take_append, List.take_replicate,
    List.length_map, hzeros]

/-! ### Hash strings -/

theorem lookup_map {α β γ : Type} [BEq α] (f : β → γ) (entries : List (α × β)) (a : α) :
    (entries.map fun e => (e.1, f e.2)).lookup a = (entries.lookup a).map f := by
  induction entries with
  | nil => rfl
  | cons e entries ih =>
      rw [List.map_cons, List.lookup_cons, List.lookup_cons, ih]
      cases a == e.1 <;> rfl

/-- The names are those under which files are checked, with the digest's length. -/
theorem lookup_hnmaps (name : WString) :
    hnmaps.lookup name = (Pkg.hnmaps.lookup name).map fun m => (m, digestSize m) :=
  lookup_map (fun m => (m, digestSize m)) Pkg.hnmaps name

theorem constructDigest_eq_ok_iff {method : HashMethod} {size : UInt16} {digits : WString}
    {spec : HashSpec} :
    constructDigest method size digits = .ok spec ↔
      ∃ digest h, hashDecode digits hashBytes = some digest ∧
        .ofDigest method size digest h = spec := by
  unfold constructDigest
  split
  · rename_i hnone
    simp [hnone]
  · rename_i digest hsome
    simp only [Except.ok.injEq, hsome, Option.some.injEq]
    constructor
    · intro heq
      exact ⟨digest, hashDecode_length hsome, rfl, heq⟩
    · rintro ⟨digest', h, rfl, heq⟩
      exact heq

theorem hashConstruct_eq_ok_iff {text : WString} {spec : HashSpec} :
    hashConstruct text = .ok spec ↔
      ∃ method digits, Names text method digits ∧
        ∃ digest h, hashDecode digits hashBytes = some digest ∧
          .ofDigest method (digestSize method) digest h = spec := by
  unfold hashConstruct
  rcases Support.cut_cases text (0x3A : WChar) with h | ⟨name, digits, rfl, h⟩
  · rw [Support.findIdx?_eq_none_iff_not_mem.mpr h]
    refine constructDigest_eq_ok_iff.trans ⟨?_, ?_⟩
    · intro hstored
      exact ⟨_, _, .plain h, hstored⟩
    · rintro ⟨method, digits, hnames, hstored⟩
      obtain ⟨rfl, rfl⟩ := (Pkg.names_plain_iff h).mp hnames
      exact hstored
  · rw [Support.findIdx?_append_cons h]
    simp only [List.take_left, List.drop_append, Nat.add_sub_cancel_left, lookup_hnmaps]
    rw [List.drop_of_length_le (Nat.le_succ _), List.nil_append, List.drop_one,
      List.tail_cons]
    cases hlookup : Pkg.hnmaps.lookup (asciiStrToUpper name) with
    | none =>
        refine iff_of_false (by simp) ?_
        rintro ⟨method, digits', hnames, -⟩
        have hm := lookup_hnmaps_iff.mpr ((Pkg.names_prefixed_iff h).mp hnames).1
        rw [hlookup] at hm
        cases hm
    | some method =>
        refine constructDigest_eq_ok_iff.trans ⟨?_, ?_⟩
        · intro hstored
          exact ⟨method, digits, .prefixed h (lookup_hnmaps_iff.mp hlookup), hstored⟩
        · rintro ⟨method', digits', hnames, hstored⟩
          obtain ⟨hm', rfl⟩ := (Pkg.names_prefixed_iff h).mp hnames
          rw [← lookup_hnmaps_iff, hlookup, Option.some.injEq] at hm'
          rw [hm']
          exact hstored

theorem hashConstruct_of_names {text : WString} {method : HashMethod} {digits : WString}
    (hnames : Names text method digits) {bytes : Bytes}
    (hdecode : hashDecode digits hashBytes = some bytes) :
    hashConstruct text =
      .ok (.ofDigest method (digestSize method) bytes (hashDecode_length hdecode)) :=
  hashConstruct_eq_ok_iff.mpr
    ⟨method, digits, hnames, bytes, hashDecode_length hdecode, hdecode, rfl⟩

/-- A text is accepted if it names a method and its pairs can be read. -/
theorem hashConstruct_isOk_iff {text : WString} :
    (∃ spec, hashConstruct text = .ok spec) ↔
      ∃ method digits, Names text method digits ∧ Readable digits := by
  simp only [hashConstruct_eq_ok_iff, readable_iff]
  constructor
  · rintro ⟨spec, method, digits, hnames, digest, -, hdecode, -⟩
    exact ⟨method, digits, hnames, digest, hdecode⟩
  · rintro ⟨method, digits, hnames, digest, hdecode⟩
    exact ⟨_, method, digits, hnames, digest, hashDecode_length hdecode, hdecode, rfl⟩

theorem methodCode_injective : Function.Injective methodCode := by
  intro m m' h
  cases m <;> cases m' <;> first | rfl | exact absurd h (by decide)

theorem ofDigest_inj {method method' : HashMethod} {digest digest' : Bytes}
    {h : digest.length ≤ hashBytes} {h' : digest'.length ≤ hashBytes} :
    HashSpec.ofDigest method (digestSize method) digest h =
        .ofDigest method' (digestSize method') digest' h' ↔
      method = method' ∧ digest ++ List.replicate (hashBytes - digest.length) 0 =
        digest' ++ List.replicate (hashBytes - digest'.length) 0 := by
  rw [HashSpec.ext_iff]
  constructor
  · rintro ⟨hmethod, -, hhash⟩
    exact ⟨methodCode_injective hmethod, hhash⟩
  · rintro ⟨rfl, hhash⟩
    exact ⟨rfl, rfl, hhash⟩

/-! ## What is resumed -/

namespace FilePart

theorem truncatedFile_currentBytes {env : DiskEnv} {pos : Int64} {part part' : FilePart}
    {disk disk' : Disk} (h : part.truncatedFile env pos disk = (.ok part', disk')) :
    part'.currentBytes = part.currentBytes := by
  unfold truncatedFile at h
  split at h
  · cases h
  · rename_i part₁ disk₁ hseek
    obtain ⟨rfl, -⟩ := seek_ok hseek
    split at h <;> cases h
    rfl

theorem startOver_currentBytes {env : DiskEnv} {part part' : FilePart}
    {disk disk' : Disk} (h : part.startOver env disk = (.ok part', disk')) :
    part'.currentBytes = part.currentBytes := by
  unfold startOver at h
  split at h
  · cases h
    rfl
  · exact truncatedFile_currentBytes h

/-- Only a trailer that matches gives a number of bytes to go on from. -/
theorem resume_currentBytes {env : DiskEnv} {spec : HashSpec} {part part' : FilePart}
    {disk disk' : Disk} (h : part.resume env spec disk = (.ok part', disk'))
    (hpart : part.currentBytes = 0) (hcurrent : part'.currentBytes ≠ 0) :
    overlayMatches spec ((disk.content part.path).drop
      ((disk.content part.path).length - overlaySize)) = true := by
  unfold resume at h
  dsimp only at h
  split at h
  · exact absurd ((startOver_currentBytes h).trans hpart) hcurrent
  rename_i atOverlay disk₁ hseek
  obtain ⟨rfl, -⟩ := seek_ok hseek
  split at h
  · exact absurd ((startOver_currentBytes h).trans hpart) hcurrent
  split at h
  · exact absurd ((startOver_currentBytes h).trans hpart) hcurrent
  · rename_i hmatches
    rwa [Bool.not_eq_true', Bool.not_eq_false] at hmatches

theorem makeFilePart_currentBytes {env : DiskEnv} {p : WinPath} {hashValue : WString}
    {part : FilePart} {disk disk' : Disk} {file : Bytes}
    (hfile : disk.files (partPath env p) = some file)
    (h : makeFilePart env p hashValue disk = (.ok part, disk'))
    (hcurrent : part.currentBytes ≠ 0) :
    ∃ spec, hashConstruct hashValue = .ok spec ∧ hashValue ≠ [] ∧
      overlayMatches spec (file.drop (file.length - overlaySize)) = true := by
  unfold makeFilePart at h
  dsimp only at h
  split at h
  · cases h
  split at h
  · cases h
  rename_i fileSize disk₁ hsize
  have hopened : disk₁.content (partPath env p) = file := by
    unfold size at hsize
    split at hsize <;> cases hsize
    rw [Disk.content, Disk.call_files, Disk.put_files_self, Option.getD_some,
      content_eq hfile]
  split at h
  · exact absurd (startOver_currentBytes h) hcurrent
  rename_i hlong
  split at h
  · exact absurd (startOver_currentBytes h) hcurrent
  rename_i spec hspec
  have hmatches := resume_currentBytes h rfl hcurrent
  rw [hopened] at hmatches
  exact ⟨spec, hspec, fun hnil => hlong (.inr hnil), hmatches⟩

theorem saveOverlayData_length {env : DiskEnv} {hashValue : WString}
    {totalBytes currentBytes : Int64} {part part' : FilePart} {disk disk' : Disk}
    {content : Bytes} (hfile : disk.files part.path = some content)
    (hlt : content.length < 2 ^ 63)
    (h : part.saveOverlayData env hashValue totalBytes currentBytes disk =
      (.ok (), part', disk')) : currentBytes.toInt = content.length := by
  unfold saveOverlayData at h
  dsimp only at h
  split at h
  · cases h
  split at h
  · cases h
  split at h
  · cases h
  split at h
  · cases h
  rename_i hsize
  rw [ne_eq, Decidable.not_not] at hsize
  split at h
  · cases h
  rename_i part₁ disk₁ hseek
  unfold size at hsize
  split at hsize
  · -- A size that cannot be determined leads to a position that cannot be sought.
    subst hsize
    unfold seek at hseek
    split at hseek <;> cases hseek
  · rw [← hsize]
    change (Int64.ofNat (disk.content part.path).length).toInt = _
    rw [content_eq hfile, Int64.toInt_ofNat_of_lt hlt]

/-- Texts that are decoded alike can be used for each other. -/
theorem exists_resumed {saved resumed : WString} {spec : HashSpec}
    (hsaved : hashConstruct saved = .ok spec) (hresumed : hashConstruct resumed = .ok spec)
    (hnonempty : resumed ≠ []) :
    ∃ file, SavedWith saved file ∧ ResumedWith resumed file := by
  have hfile : letterDisk.files letterPart.path = some [0x61] := Disk.put_files_self _ _ _
  obtain ⟨part', disk', hsave⟩ := saveOverlayData_reliable reliableEnv_reliable hsaved
    (by decide : (0 : Int64) < 2) (by decide : (1 : Int64) ≠ 0) rfl hfile rfl
  obtain ⟨-, -, spec', hspec', hfiles⟩ := saveOverlayData_ok hfile rfl hsave
  cases hsaved.symm.trans hspec'
  have hfile' : disk'.files letterPart.path =
      some ([0x61] ++ Overlay.encode ⟨spec, 2, 1, reliableEnv.now⟩) := by
    rw [hfiles, Disk.put_files_self]
  refine ⟨_, ⟨reliableEnv, letterPart, part', letterDisk, disk', 2, 1, [0x61], hfile,
    by decide, hsave, hfile'⟩, ?_⟩
  have hparked := parked_encode (o := ⟨spec, 2, 1, reliableEnv.now⟩) hnonempty hresumed
    (by decide : [0x61] ≠ ([] : Bytes)) rfl (by decide)
  obtain ⟨disk'', hmake, -⟩ := makeFilePart_reliable reliableEnv_reliable letterPath resumed
    (content_eq hfile') hparked.length_lt
  refine ⟨reliableEnv, letterPath, _, disk', disk'', hfile', hmake, ?_⟩
  intro hzero
  have hcurrent := hparked.opened_currentBytes reliableEnv letterPath
  rw [hzero] at hcurrent
  exact absurd hcurrent (by decide)

end FilePart

theorem SavedWith.trailer {text : WString} {file : Bytes} (h : SavedWith text file) :
    ∃ (o : Overlay) (content : Bytes), hashConstruct text = .ok o.spec ∧
      file = content ++ o.encode := by
  obtain ⟨env, part, part', disk, disk', totalBytes, currentBytes, content, hfile, hlt, hsave,
    hfile'⟩ := h
  have hcurrent := FilePart.saveOverlayData_length hfile hlt hsave
  obtain ⟨-, -, spec, hspec, hfiles⟩ := FilePart.saveOverlayData_ok hfile hcurrent hsave
  rw [hfiles, Disk.put_files_self] at hfile'
  exact ⟨⟨spec, totalBytes, currentBytes, env.now⟩, content, hspec,
    (Option.some.inj hfile').symm⟩

theorem SavedWith.resumedWith {saved resumed : WString} {file : Bytes}
    (hsaved : SavedWith saved file) (hresumed : ResumedWith resumed file) :
    ∃ spec, hashConstruct saved = .ok spec ∧ hashConstruct resumed = .ok spec := by
  obtain ⟨o, content, hspec, rfl⟩ := hsaved.trailer
  obtain ⟨env, p, part, disk, disk', hfile, hmake, hcurrent⟩ := hresumed
  obtain ⟨spec, hspec', -, hmatches⟩ :=
    FilePart.makeFilePart_currentBytes hfile hmake hcurrent
  have hseekTo : (content ++ o.encode).length - overlaySize = content.length := by
    rw [List.length_append, o.length_encode, Nat.add_sub_cancel]
  rw [hseekTo, List.drop_left, o.overlayMatches_encode_iff] at hmatches
  exact ⟨o.spec, hspec, hmatches ▸ hspec'⟩

/-! ## When parts are told apart -/

/-- No malformed digits of the text are read without an error. -/
def Screened (text : WString) : Prop :=
  ∀ {method digits}, Names text method digits →
    MalformedDigits (digestSize method).toNat digits → ¬ Readable digits

/-- The texts name one method, and as far as digits are read they are the same up to
case and to zeros at the end. -/
def Confusable (saved resumed : WString) : Prop :=
  ∃ method digits digits', Names saved method digits ∧ Names resumed method digits' ∧
    Readable digits ∧ Readable digits' ∧ padded digits = padded digits'

/-- There are more digits than the digest has. -/
def TooLong (text : WString) : Prop :=
  ∃ method digits, Names text method digits ∧
    2 * (digestSize method).toNat < digits.length

theorem screened_iff {text : WString} :
    Screened text ↔ (Malformed text → ∃ ec, hashConstruct text = .error ec) := by
  constructor
  · intro h hmalformed
    cases hconstruct : hashConstruct text with
    | error ec => exact ⟨ec, rfl⟩
    | ok spec =>
        obtain ⟨method, digits, hnames, hreadable⟩ :=
          hashConstruct_isOk_iff.mp ⟨spec, hconstruct⟩
        exact absurd hreadable (h hnames (hmalformed hnames))
  · intro h method digits hnames hdigits hreadable
    obtain ⟨ec, hec⟩ := h fun hnames' => by
      obtain ⟨rfl, rfl⟩ := hnames.unique hnames'
      exact hdigits
    obtain ⟨spec, hspec⟩ := hashConstruct_isOk_iff.mpr ⟨method, digits, hnames, hreadable⟩
    rw [hec] at hspec
    cases hspec

theorem rejected_of_error {text : WString} {ec : ErrorCode}
    (h : hashConstruct text = .error ec) : Rejected text where
  construct := ⟨ec, h⟩
  saved file hsaved := by
    obtain ⟨o, content, hspec, -⟩ := hsaved.trailer
    rw [h] at hspec
    cases hspec
  resumed file hresumed := by
    obtain ⟨env, p, part, disk, disk', hfile, hmake, hcurrent⟩ := hresumed
    obtain ⟨spec, hspec, -⟩ := FilePart.makeFilePart_currentBytes hfile hmake hcurrent
    rw [h] at hspec
    cases hspec

theorem Screened.wellFormed {text : WString} (h : Screened text) {method : HashMethod}
    {digits : WString} (hnames : Names text method digits) (hreadable : Readable digits) :
    2 * (digestSize method).toNat ≤ digits.length ∧ digits.length % 2 = 0 ∧
      ∀ c ∈ digits, isHexDigit c = true := by
  have hformed : ¬ MalformedDigits (digestSize method).toNat digits :=
    fun hmalformed => h hnames hmalformed hreadable
  obtain ⟨hlong, heven, hhex⟩ : _ ∧ _ ∧ _ := by
    rw [← not_or, ← not_or]
    exact hformed
  refine ⟨Nat.not_lt.mp hlong, Nat.mod_two_ne_one.mp heven, ?_⟩
  intro c hc
  by_contra hno
  exact hhex ⟨c, hc, Bool.not_eq_true _ ▸ hno⟩

theorem digestSize_le (method : HashMethod) : (digestSize method).toNat ≤ hashBytes := by
  cases method <;> decide

/-- Screened digits are stored alike if they are padded alike. -/
theorem stored_eq_iff {saved resumed : WString} (hsaved : Screened saved)
    (hresumed : Screened resumed) {method : HashMethod} {digits digits' : WString}
    (hnames : Names saved method digits) (hnames' : Names resumed method digits')
    {bytes bytes' : Bytes} (hdecode : hashDecode digits hashBytes = some bytes)
    (hdecode' : hashDecode digits' hashBytes = some bytes') :
    bytes ++ List.replicate (hashBytes - bytes.length) 0 =
        bytes' ++ List.replicate (hashBytes - bytes'.length) 0 ↔
      padded digits = padded digits' := by
  obtain ⟨-, heven, hhex⟩ := hsaved.wellFormed hnames (readable_iff.mpr ⟨_, hdecode⟩)
  obtain ⟨-, heven', hhex'⟩ := hresumed.wellFormed hnames' (readable_iff.mpr ⟨_, hdecode'⟩)
  rw [← hexText_stored hhex heven hdecode, ← hexText_stored hhex' heven' hdecode']
  exact hexText_injective.eq_iff.symm

theorem Screened.spells {text : WString} (h : Screened text) {method : HashMethod}
    {digits : WString} (hnames : Names text method digits) {bytes : Bytes}
    (hdecode : hashDecode digits hashBytes = some bytes)
    (hexact : ¬ TooLong text) : Spells text method bytes := by
  obtain ⟨hlong, heven, hhex⟩ := h.wellFormed hnames (readable_iff.mpr ⟨_, hdecode⟩)
  have hlength : digits.length = 2 * (digestSize method).toNat := by
    by_contra hne
    exact hexact ⟨method, digits, hnames, by omega⟩
  obtain ⟨bytes', hdecode', hcount, htext⟩ := @hashDecode_hex _ hashBytes hhex heven
  cases hdecode.symm.trans hdecode'
  have hsize := digestSize_le method
  refine ⟨digits, hnames, by omega, ?_⟩
  rw [equalsIgnoreCase_iff, hexText_lower, htext, List.take_of_length_le]
  rw [List.length_map]
  omega

theorem Spells.length {text : WString} {method : HashMethod} {digest : Bytes}
    (h : Spells text method digest) : digest.length = (digestSize method).toNat := by
  obtain ⟨digits, hnames, hlength, -⟩ := h
  exact hlength

theorem Spells.not_tooLong {text : WString} {method : HashMethod} {digest : Bytes}
    (h : Spells text method digest) : ¬ TooLong text := by
  rintro ⟨method', digits', hnames', hlong⟩
  obtain ⟨digits, hnames, hlength, hequal⟩ := h
  obtain ⟨rfl, rfl⟩ := hnames.unique hnames'
  have hcount := congrArg List.length (equalsIgnoreCase_iff.mp hequal)
  rw [List.length_map, List.length_map, hexText_length] at hcount
  omega

/-- Parts are told apart by their hashes, and malformed hashes are rejected, if and only
if no malformed digits can be read, and no text with too many digits is the same as the
other one as far as digits are read. -/
theorem identifies_iff {saved resumed : WString} :
    Identifies saved resumed ↔
      (Screened saved ∧ Screened resumed) ∧
        (TooLong saved ∨ TooLong resumed → ¬ Confusable saved resumed) := by
  constructor
  · intro h
    have hsaved : Screened saved := screened_iff.mpr fun hmalformed =>
      (h.rejects saved (by simp) hmalformed).construct
    have hresumed : Screened resumed := screened_iff.mpr fun hmalformed =>
      (h.rejects resumed (by simp) hmalformed).construct
    refine ⟨⟨hsaved, hresumed⟩, ?_⟩
    rintro hlong ⟨method, digits, digits', hnames, hnames', hread, hread', hpadded⟩
    obtain ⟨bytes, hdecode⟩ := readable_iff.mp hread
    obtain ⟨bytes', hdecode'⟩ := readable_iff.mp hread'
    have hstored := (stored_eq_iff hsaved hresumed hnames hnames' hdecode hdecode').mpr hpadded
    have hspec := hashConstruct_of_names hnames hdecode
    have hspec' := hashConstruct_of_names hnames' hdecode'
    rw [← (ofDigest_inj (h := hashDecode_length hdecode)).mpr ⟨rfl, hstored⟩] at hspec'
    have hnonempty : resumed ≠ [] := by
      rintro rfl
      obtain ⟨rfl, rfl⟩ := (Pkg.names_plain_iff (by simp)).mp hnames'
      have hcount := (hresumed.wellFormed hnames' hread').1
      exact absurd hcount (by decide)
    obtain ⟨file, hsavedWith, hresumedWith⟩ := FilePart.exists_resumed hspec hspec' hnonempty
    obtain ⟨method', digest, hspells, hspells'⟩ := h.same hsavedWith hresumedWith
    rcases hlong with hlong | hlong
    · exact hspells.not_tooLong hlong
    · exact hspells'.not_tooLong hlong
  · rintro ⟨⟨hsaved, hresumed⟩, hapart⟩
    refine ⟨?_, ?_⟩
    · intro file hsavedWith hresumedWith
      obtain ⟨spec, hspec, hspec'⟩ := hsavedWith.resumedWith hresumedWith
      obtain ⟨method, digits, hnames, bytes, hle, hdecode, rfl⟩ :=
        hashConstruct_eq_ok_iff.mp hspec
      obtain ⟨method', digits', hnames', bytes', hle', hdecode', heq⟩ :=
        hashConstruct_eq_ok_iff.mp hspec'
      obtain ⟨rfl, hstored⟩ := ofDigest_inj.mp heq
      have hconfusable : Confusable saved resumed :=
        ⟨method', digits, digits', hnames, hnames', readable_iff.mpr ⟨_, hdecode⟩,
          readable_iff.mpr ⟨_, hdecode'⟩,
          (stored_eq_iff hsaved hresumed hnames hnames' hdecode hdecode').mp hstored.symm⟩
      have hexact : ¬ TooLong saved ∧ ¬ TooLong resumed :=
        not_or.mp fun hlong => hapart hlong hconfusable
      have hspells := hsaved.spells hnames hdecode hexact.1
      have hspells' := hresumed.spells hnames' hdecode' hexact.2
      have hbytes : bytes' = bytes :=
        List.append_inj_left hstored (hspells'.length.trans hspells.length.symm)
      rw [hbytes] at hspells'
      exact ⟨method', bytes, hspells, hspells'⟩
    · intro text htext hmalformed
      have hscreened : Screened text := by
        rcases List.mem_pair.mp htext with rfl | rfl
        · exact hsaved
        · exact hresumed
      obtain ⟨ec, hec⟩ := screened_iff.mp hscreened hmalformed
      exact rejected_of_error hec

/-- Two digits are taken for a SHA-256 digest, with zeros behind them. -/
theorem shortHash_not_identifies : ¬ Identifies (wide "61") (wide "6100") := by
  intro h
  have hmalformed : Malformed (wide "61") := by
    intro method digits hnames
    obtain ⟨rfl, rfl⟩ := (Pkg.names_plain_iff (by decide)).mp hnames
    exact .inl (by decide)
  obtain ⟨ec, hec⟩ := (h.rejects _ (by simp) hmalformed).construct
  cases hec

end Baulk.Net
