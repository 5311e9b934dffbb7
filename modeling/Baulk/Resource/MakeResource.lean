import Baulk.Core.Numbers
import Baulk.Pkg.Package
import Baulk.Resource.Statements
import Baulk.Support.ComponentWalk
import Baulk.Support.Replace

/-!
# The generated resource script

`MakeResource` puts the numbers and the texts of a version record into the places of a
template and writes the result as UTF-8.  The texts are not escaped, and the third number
of a version is also put where the fourth one belongs.
-/

namespace Baulk.Resource

open Numbers (simpleAtoi32)
open Support
open Support.Substitution (Uniform scan scan_preserves)

/-- The fields of `bela::pe::Version` that the script uses. -/
structure Version where
  companyName : WString
  fileDescription : WString
  fileVersion : WString
  internalName : WString
  legalCopyright : WString
  originalFileName : WString
  productName : WString
  productVersion : WString

structure VersionPart where
  majorPart : Int
  minorPart : Int
  buildPart : Int
  privatePart : Int

/-- A part that is missing is zero. -/
def partAt (parts : List WString) (i : Nat) : Int :=
  match parts[i]? with
  | none => 0
  | some part => (simpleAtoi32 part).1

def makeVersionPart (vs : WString) : VersionPart :=
  let vsv := components (· == 0x2E) vs
  { majorPart := partAt vsv 0
    minorPart := partAt vsv 1
    buildPart := partAt vsv 2
    privatePart := partAt vsv 3 }

/-- The text that `std::format` gives for a number. -/
def formatInt (n : Int) : WString :=
  if n < 0 then 0x2D :: wide (Nat.repr n.natAbs) else wide (Nat.repr n.natAbs)

/-- The template up to the first place. -/
def introText : WString :=
  wide "//Baulk generated resource script.\n#include \"windows.h\"\n\n" ++
    wide "VS_VERSION_INFO VERSIONINFO\nFILEVERSION "

/-- The template between the numbers and the strings. -/
def flagsText : WString :=
  wide "0x3fL\n#ifdef _DEBUG\nFILEFLAGS 0x1L\n#else\nFILEFLAGS 0x0L\n" ++
    wide "#endif\nFILEOS 0x40004L\nFILETYPE 0x1L\nFILESUBTYPE 0x0L\nBEGIN\n" ++
    wide "BLOCK \"StringFileInfo\"\nBEGIN\nBLOCK \"000904b0\"\nBEGIN\n"

/-- The template behind the strings. -/
def closingText : WString :=
  wide "END\nEND\nBLOCK \"VarFileInfo\"\nBEGIN\n" ++
    wide "VALUE \"Translation\", 0x9, 1200\nEND\nEND\n\n"

/-- The template between its places. -/
def resources : List WString :=
  [introText, wide ", ", wide ", ", wide ", ",
    wide "\nPRODUCTVERSION ", wide ", ", wide ", ", wide ", ",
    wide "\nFILEFLAGSMASK " ++ flagsText ++ wide "VALUE \"CompanyName\", L\"",
    wide "\"\nVALUE \"FileDescription\", L\"",
    wide "\"\nVALUE \"FileVersion\", L\"",
    wide "\"\nVALUE \"InternalName\", L\"",
    wide "\"\nVALUE \"LegalCopyright\", L\"",
    wide "\"\nVALUE \"OriginalFilename\", L\"",
    wide "\"\nVALUE \"ProductName\", L\"",
    wide "\"\nVALUE \"ProductVersion\", L\"",
    wide "\"\n" ++ closingText]

/-- Put arguments into the places of a template. -/
def format : List WString → List WString → WString
  | piece :: pieces, arg :: args => piece ++ (arg ++ format pieces args)
  | pieces, _ => pieces.flatten

/-- The sign that replaces `(c)` and `(C)`. -/
def copyrightSigns : List (WString × WString) :=
  [(wide "(c)", [0xA9]), (wide "(C)", [0xA9])]

def resourceText (version : Version) : WString :=
  let copyright := replaceAll copyrightSigns version.legalCopyright
  let fv := makeVersionPart version.fileVersion
  let pv := makeVersionPart version.productVersion
  format resources
    [formatInt fv.majorPart, formatInt fv.minorPart, formatInt fv.buildPart,
      formatInt fv.buildPart,
      formatInt pv.majorPart, formatInt pv.minorPart, formatInt pv.buildPart,
      formatInt pv.buildPart,
      version.companyName, version.fileDescription, version.fileVersion, version.internalName,
      copyright, version.originalFileName, version.productName, version.productVersion]

/-- `MakeResource`: the bytes of the file. -/
def makeResource (version : Version) : Bytes :=
  encodeUtf8 (resourceText version)

/-! ## What a script should say -/

def VersionPart.values (part : VersionPart) : List Int :=
  [part.majorPart, part.minorPart, part.buildPart, part.privatePart]

/-- The strings of a version record; in the copyright the sign is replaced. -/
def Version.strings (version : Version) : List (WString × WString) :=
  [(wide "CompanyName", version.companyName),
    (wide "FileDescription", version.fileDescription),
    (wide "FileVersion", version.fileVersion),
    (wide "InternalName", version.internalName),
    (wide "LegalCopyright", scan copyrightSigns version.legalCopyright),
    (wide "OriginalFilename", version.originalFileName),
    (wide "ProductName", version.productName),
    (wide "ProductVersion", version.productVersion)]

/-- The statements about a file of which the two numbers are given. -/
def fixedStatements (fileVersion productVersion : List Int) : List Statement :=
  [.versionInfo (wide "VS_VERSION_INFO"),
    .fixed (wide "FILEVERSION") fileVersion,
    .fixed (wide "PRODUCTVERSION") productVersion,
    .fixed (wide "FILEFLAGSMASK") [0x3F],
    .fixed (wide "FILEFLAGS") [0],
    .fixed (wide "FILEOS") [0x40004],
    .fixed (wide "FILETYPE") [1],
    .fixed (wide "FILESUBTYPE") [0],
    .beginBlock (wide "StringFileInfo"),
    .beginBlock (wide "000904b0")]

/-- What follows the strings. -/
def closingStatements : List Statement :=
  [.endBlock, .endBlock, .beginBlock (wide "VarFileInfo"),
    .value (wide "Translation") [.number 9, .number 1200], .endBlock, .endBlock]

def stringStatement (item : WString × WString) : Statement :=
  .value item.1 [.text item.2]

/-- The statements about a version record: its numbers, its strings, and no others. -/
def Version.statements (version : Version) : List Statement :=
  fixedStatements (makeVersionPart version.fileVersion).values
      (makeVersionPart version.productVersion).values ++
    version.strings.map stringStatement ++ closingStatements

/-- The third and the fourth part of a version are the same number. -/
def LastPartsAgree (vs : WString) : Prop :=
  partAt (components (· == 0x2E) vs) 2 = partAt (components (· == 0x2E) vs) 3

/-- A text without quotes, backslashes and line ends, and with paired surrogates. -/
def PlainText (text : WString) : Prop :=
  Plain text ∧ WellFormed text

def Version.texts (version : Version) : List WString :=
  [version.companyName, version.fileDescription, version.fileVersion, version.internalName,
    version.legalCopyright, version.originalFileName, version.productName,
    version.productVersion]

/-! ## The numbers -/

theorem isWordChar_repr {n : Nat} {c : WChar} (h : c ∈ wide (Nat.repr n)) :
    isWordChar c = true := by
  obtain ⟨hlow, hhigh⟩ := digit_of_mem_repr h
  have hdigit : 0x30 ≤ c ∧ c ≤ 0x39 :=
    ⟨UInt16.le_iff_toNat_le.mpr hlow, UInt16.le_iff_toNat_le.mpr hhigh⟩
  unfold isWordChar
  simp [hdigit]

theorem digitOf_digit {c : Char} (h : c.isDigit = true) :
    digitOf 10 c.toNat.toUInt16 = some (c.toNat - '0'.toNat) := by
  rw [Char.isDigit_iff_toNat] at h
  have hlow : 48 ≤ c.toNat := h.1
  have hhigh : c.toNat ≤ 57 := h.2
  have hnat : c.toNat.toUInt16.toNat = c.toNat := Nat.mod_eq_of_lt (by omega)
  have hdigit : 0x30 ≤ c.toNat.toUInt16 ∧ c.toNat.toUInt16 ≤ 0x39 := by
    rw [UInt16.le_iff_toNat_le, UInt16.le_iff_toNat_le, hnat]
    exact h
  rw [digitOf, digitValue, if_pos hdigit, hnat]
  refine Option.filter_eq_some_iff.mpr ⟨rfl, ?_⟩
  change decide (c.toNat - 48 < 10) = true
  rw [decide_eq_true_eq]
  omega

theorem readDigits_digits {cs : List Char} (h : ∀ c ∈ cs, c.isDigit = true) (n : Nat) :
    readDigits 10 (cs.map fun c => c.toNat.toUInt16) n = some (Nat.ofDigitChars 10 cs n) := by
  induction cs generalizing n with
  | nil => rfl
  | cons c cs ih =>
      rw [List.map_cons, readDigits, digitOf_digit (h c List.mem_cons_self), Option.bind_some,
        ih fun d hd => h d (List.mem_cons_of_mem _ hd), Nat.ofDigitChars_cons]

theorem readNatural_repr (n : Nat) : readNatural (wide (Nat.repr n)) = some n := by
  have hread : readDigits 10 (wide (Nat.repr n)) 0 = some n := by
    have hall : ∀ c ∈ Nat.toDigits 10 n, c.isDigit = true := fun c hc =>
      Nat.isDigit_of_mem_toDigits (by decide) (by decide) hc
    have hdigits := readDigits_digits hall 0
    rw [Nat.ofDigitChars_ten_toDigits] at hdigits
    rw [wide, Nat.toList_repr]
    exact hdigits
  have hne : wide (Nat.repr n) ≠ [] := by
    intro hnil
    rw [wide, Nat.toList_repr, List.map_eq_nil_iff] at hnil
    exact Nat.toDigits_ne_nil hnil
  have hhex : (wide (Nat.repr n)).take 2 ≠ wide "0x" := by
    intro heq
    have hmem : (0x78 : WChar) ∈ (wide (Nat.repr n)).take 2 := by
      rw [heq]
      decide
    exact absurd (digit_of_mem_repr (List.mem_of_mem_take hmem)).2 (by decide)
  rw [readNatural, if_neg hne, if_neg hhex, hread]

theorem isWordChar_formatInt {n : Int} {c : WChar} (h : c ∈ formatInt n) :
    isWordChar c = true := by
  unfold formatInt at h
  split at h
  · rcases List.mem_cons.mp h with rfl | h
    · decide
    · exact isWordChar_repr h
  · exact isWordChar_repr h

theorem withoutSuffix_formatInt (n : Int) : withoutSuffix (formatInt n) = formatInt n := by
  unfold withoutSuffix
  split
  · next hlast =>
    have hmem := List.mem_of_getLast? hlast
    unfold formatInt at hmem
    split at hmem
    · rcases List.mem_cons.mp hmem with heq | hmem
      · exact absurd heq (by decide)
      · exact absurd (digit_of_mem_repr hmem).2 (by decide)
    · exact absurd (digit_of_mem_repr hmem).2 (by decide)
  · rfl

theorem wordToken_formatInt (n : Int) : wordToken (formatInt n) = some (.number n) := by
  have hsuffix := withoutSuffix_formatInt n
  unfold wordToken readNumber
  rw [hsuffix]
  unfold formatInt
  by_cases hneg : n < 0
  · rw [if_pos hneg, List.head?_cons, List.tail_cons, readNatural_repr, if_pos rfl]
    have hback : -(n.natAbs : Int) = n := by omega
    change some (Token.number (-(n.natAbs : Int))) = _
    rw [hback]
  · rw [if_neg hneg]
    cases hrepr : wide (Nat.repr n.natAbs) with
    | nil =>
        have hread := readNatural_repr n.natAbs
        rw [hrepr] at hread
        cases hread
    | cons c rest =>
        have hmem : c ∈ wide (Nat.repr n.natAbs) := by
          rw [hrepr]
          exact List.mem_cons_self
        obtain ⟨hlow, hhigh⟩ := digit_of_mem_repr hmem
        have hdigit : 0x30 ≤ c ∧ c ≤ 0x39 :=
          ⟨UInt16.le_iff_toNat_le.mpr hlow, UInt16.le_iff_toNat_le.mpr hhigh⟩
        have hsign : some c ≠ some 0x2D := by
          intro heq
          rw [Option.some.inj heq] at hlow
          exact absurd hlow (by decide)
        have hback : (n.natAbs : Int) = n := by omega
        rw [List.head?_cons, ← hrepr, readNatural_repr, if_neg hsign, if_pos (by simp [hdigit])]
        change some (Token.number (n.natAbs : Int)) = _
        rw [hback]

theorem formatInt_ne_nil (n : Int) : formatInt n ≠ [] := by
  intro hnil
  have hread := wordToken_formatInt n
  rw [hnil] at hread
  cases hread

/-- A number is put out at the next character, which is read as if it stood alone. -/
theorem transduce_formatInt (n : Int) {c : WChar} {rest : WString} {mode : Mode}
    {tokens : List Token} (hc : isWordChar c = false) (hquote : c ≠ 0x22)
    (h : transduce lexStep .between (c :: rest) = some (mode, tokens)) :
    transduce lexStep .between (formatInt n ++ c :: rest) = some (mode, .number n :: tokens) := by
  have hword : transduce lexStep .between (formatInt n) = some (.word (formatInt n), []) := by
    obtain ⟨d, digits, hdigits⟩ := List.exists_cons_of_ne_nil (formatInt_ne_nil n)
    have hall : ∀ d ∈ formatInt n, isWordChar d = true := fun d => isWordChar_formatInt
    rw [hdigits] at hall ⊢
    have hstart : lexStep .between d = some (.word [d], []) := by
      rw [lexStep, startToken, if_pos (hall d List.mem_cons_self)]
    rw [transduce_cons_of hstart, transduce_word fun e he => hall e (List.mem_cons_of_mem _ he)]
    rfl
  have hstep : lexStep (.word (formatInt n)) c =
      (lexStep .between c).map (emit [.number n]) := by
    have hbetween : lexStep .between c = startToken c := rfl
    rw [hbetween, lexStep, if_neg (by rw [hc]; decide), if_neg hquote, wordToken_formatInt]
    rfl
  rw [transduce_append_of hword, transduce_cons_map hstep, h]
  rfl

/-! ## Up to the strings -/

/-- Four numbers as the template has them. -/
def numberFields (a b c d : Int) : WString :=
  formatInt a ++ (wide ", " ++ (formatInt b ++ (wide ", " ++ (formatInt c ++ (wide ", " ++
    formatInt d)))))

variable {keyword next : WString} {values : List Int}

theorem readOn_number (n : Int) (rest : WString) :
    readOn .between ([], .expectNumber keyword values) (formatInt n ++ (wide ", " ++ rest)) =
      readOn .between ([], .expectNumber keyword (values ++ [n])) rest := by
  have hcomma : transduce lexStep .between (wide ", ") = some (.between, [.comma]) := rfl
  have hlex := transduce_formatInt n (by decide) (by decide) hcomma
  rw [← List.append_assoc]
  exact readOn_silent hlex rfl rest

/-- The line of a number ends where the next line begins with a keyword. -/
theorem readOn_lastNumber (hlex : transduce lexStep .between (0x0A :: next) =
      some (.between, [.word keyword])) (hkeyword : fixedKeywords.contains keyword = true)
    (hbegin : keyword ≠ wide "BEGIN") {line : WString} (n : Int) (rest : WString) :
    readOn .between ([], .expectNumber line values) (formatInt n ++ (0x0A :: next ++ rest)) =
      (readOn .between ([], .expectNumber keyword []) rest).map
        (.fixed line (values ++ [n]) :: ·) := by
  have hnumber := transduce_formatInt n (by decide) (by decide) hlex
  have hfixed : fixedStep (.word keyword) = some (.expectNumber keyword [], []) := by
    rw [fixedStep, if_neg hbegin, if_pos hkeyword]
  have hread : transduce readStep ([], .expectNumber line values) [.number n, .word keyword] =
      some (([], .expectNumber keyword []), [.fixed line (values ++ [n])]) := by
    have hstep : readStep ([], .numbers line (values ++ [n])) (.word keyword) =
        some (([], .expectNumber keyword []), [.fixed line (values ++ [n])]) := by
      change ((fixedStep (.word keyword)).map _).map _ = _
      rw [hfixed]
      rfl
    have hnumber : readStep ([], .expectNumber line values) (.number n) =
        some (([], .numbers line (values ++ [n])), []) := rfl
    rw [transduce_cons_of hnumber, transduce_cons_of hstep]
    rfl
  rw [← List.append_assoc]
  exact readOn_append hnumber hread rest

theorem readOn_numberFields (hlex : transduce lexStep .between (0x0A :: next) =
      some (.between, [.word keyword])) (hkeyword : fixedKeywords.contains keyword = true)
    (hbegin : keyword ≠ wide "BEGIN") {line : WString} (a b c d : Int) (rest : WString) :
    readOn .between ([], .expectNumber line []) (numberFields a b c d ++ (0x0A :: next ++ rest)) =
      (readOn .between ([], .expectNumber keyword []) rest).map
        (.fixed line [a, b, c, d] :: ·) := by
  unfold numberFields
  simp only [List.append_assoc]
  rw [readOn_number, readOn_number, readOn_number]
  exact readOn_lastNumber hlex hkeyword hbegin d rest

/-- The script up to its strings; the third number stands in the fourth place. -/
def frontText (fv pv : VersionPart) : WString :=
  introText ++ (numberFields fv.majorPart fv.minorPart fv.buildPart fv.buildPart ++
    (0x0A :: wide "PRODUCTVERSION " ++
      (numberFields pv.majorPart pv.minorPart pv.buildPart pv.buildPart ++
        (0x0A :: wide "FILEFLAGSMASK " ++ flagsText))))

theorem readOn_front (fv pv : VersionPart) (rest : WString) :
    readOn .lineStart ([], .outside) (frontText fv pv ++ rest) =
      (readOn .lineStart ([], .body 2) rest).map
        (fixedStatements [fv.majorPart, fv.minorPart, fv.buildPart, fv.buildPart]
          [pv.majorPart, pv.minorPart, pv.buildPart, pv.buildPart] ++ ·) := by
  have hintro : ∀ rest, readOn .lineStart ([], .outside) (introText ++ rest) =
      (readOn .between ([], .expectNumber (wide "FILEVERSION") []) rest).map
        (.versionInfo (wide "VS_VERSION_INFO") :: ·) := by
    have hlex : transduce lexStep .lineStart introText = some (.between,
        [.directive (wide "include \"windows.h\""), .word (wide "VS_VERSION_INFO"),
          .word (wide "VERSIONINFO"), .word (wide "FILEVERSION")]) := by decide +kernel
    have hread : transduce readStep ([], .outside)
        [.directive (wide "include \"windows.h\""), .word (wide "VS_VERSION_INFO"),
          .word (wide "VERSIONINFO"), .word (wide "FILEVERSION")] =
        some (([], .expectNumber (wide "FILEVERSION") []),
          [.versionInfo (wide "VS_VERSION_INFO")]) := by decide
    exact fun rest => readOn_append hlex hread rest
  have hproduct : transduce lexStep .between (0x0A :: wide "PRODUCTVERSION ") =
      some (.between, [.word (wide "PRODUCTVERSION")]) := by decide
  have hmask : transduce lexStep .between (0x0A :: wide "FILEFLAGSMASK ") =
      some (.between, [.word (wide "FILEFLAGSMASK")]) := by decide
  have hflags : ∀ rest, readOn .between ([], .expectNumber (wide "FILEFLAGSMASK") [])
      (flagsText ++ rest) =
      (readOn .lineStart ([], .body 2) rest).map
        ([.fixed (wide "FILEFLAGSMASK") [0x3F], .fixed (wide "FILEFLAGS") [0],
          .fixed (wide "FILEOS") [0x40004], .fixed (wide "FILETYPE") [1],
          .fixed (wide "FILESUBTYPE") [0], .beginBlock (wide "StringFileInfo"),
          .beginBlock (wide "000904b0")] ++ ·) := by
    have hlex : transduce lexStep .between flagsText = some (.lineStart,
        [.number 0x3F, .directive (wide "ifdef _DEBUG"), .word (wide "FILEFLAGS"), .number 1,
          .directive (wide "else"), .word (wide "FILEFLAGS"), .number 0,
          .directive (wide "endif"), .word (wide "FILEOS"), .number 0x40004,
          .word (wide "FILETYPE"), .number 1, .word (wide "FILESUBTYPE"), .number 0,
          .word (wide "BEGIN"), .word (wide "BLOCK"), .literal (wide "StringFileInfo"),
          .word (wide "BEGIN"), .word (wide "BLOCK"), .literal (wide "000904b0"),
          .word (wide "BEGIN")]) := by decide +kernel
    exact fun rest => readOn_append hlex (by decide) rest
  unfold frontText
  simp only [List.append_assoc]
  rw [hintro, readOn_numberFields hproduct (by decide) (by decide),
    readOn_numberFields hmask (by decide) (by decide), hflags]
  simp only [Option.map_map]
  rfl

theorem readOn_closing :
    readOn .lineStart ([], .body 2) (closingText ++ [0x0A]) = some closingStatements := by
  decide

/-! ## The strings -/

/-- Names of strings can be put into a script. -/
def IsName (name : WString) : Prop :=
  Plain name ∧ NoSurrogate name

def valueLines : List (WString × WString) → WString
  | [] => []
  | item :: items => valueLine item.1 item.2 ++ valueLines items

variable {name text rest : WString} {depth : Nat} {items : List (WString × WString)}
  {out : List Statement}

theorem isName_of_all (h : (name.all fun u => isPlain u && !isHighSurrogate u &&
    !isLowSurrogate u) = true) : IsName name := by
  simp only [List.all_eq_true, Bool.and_eq_true, Bool.not_eq_true'] at h
  exact ⟨fun u hu => (h u hu).1.1, fun u hu => ⟨(h u hu).1.2, (h u hu).2⟩⟩

theorem IsName.valueHead (h : IsName name) : NoSurrogate (valueHead name) :=
  ((noSurrogate_of_all (by decide)).append h.2).append
    (noSurrogate_of_all (by decide))

theorem pairedPart_valueLine (h : IsName name) (rest : WString) :
    pairedPart (valueLine name text ++ rest) =
      if Paired text then valueLine name text ++ pairedPart rest
      else valueHead name ++ pairedPart text := by
  have hend : NoSurrogate [0x0A] := noSurrogate_of_all (by decide)
  have hline : pairedPart (0x0A :: rest) = 0x0A :: pairedPart rest := hend.pairedPart_append rest
  unfold valueLine
  rw [List.append_assoc, h.valueHead.pairedPart_append, List.append_assoc]
  change _ ++ pairedPart (text ++ 0x22 :: 0x0A :: rest) = _
  rw [pairedPart_append_cons (by decide) (by decide), hline]
  split
  · rw [List.append_assoc, List.append_assoc]
    rfl
  · rfl

theorem beginsWithWord_valueLines (hrest : NoSurrogate rest)
    (hword : BeginsWithWord (rest ++ [0x0A])) (hnames : ∀ item ∈ items, IsName item.1) :
    BeginsWithWord (pairedPart (valueLines items ++ rest) ++ [0x0A]) := by
  cases items with
  | nil =>
      rwa [valueLines, List.nil_append, hrest.paired]
  | cons item items =>
      rw [valueLines, List.append_assoc,
        pairedPart_valueLine (hnames item List.mem_cons_self)]
      split
      · unfold valueLine
        rw [List.append_assoc, List.append_assoc]
        exact beginsWithWord_valueHead _ _
      · rw [List.append_assoc]
        exact beginsWithWord_valueHead _ _

/-- The lines of strings, as far as they come back from UTF-8, are read as the strings
exactly if every text can stand in a literal and has its surrogates in pairs. -/
theorem readOn_valueLines_iff (hrest : NoSurrogate rest)
    (hword : BeginsWithWord (rest ++ [0x0A])) (hnames : ∀ item ∈ items, IsName item.1) :
    readOn .lineStart ([], .body depth) (pairedPart (valueLines items ++ rest) ++ [0x0A]) =
        some (items.map stringStatement ++ out) ↔
      (∀ item ∈ items, Plain item.2 ∧ Paired item.2) ∧
        readOn .lineStart ([], .body depth) (rest ++ [0x0A]) = some out := by
  induction items with
  | nil =>
      rw [valueLines, List.nil_append, hrest.paired]
      exact ⟨fun h => ⟨nofun, h⟩, fun h => h.2⟩
  | cons item items ih =>
      have hname := hnames item List.mem_cons_self
      have hnames' : ∀ item ∈ items, IsName item.1 := fun x hx =>
        hnames x (List.mem_cons_of_mem _ hx)
      have hnext := beginsWithWord_valueLines hrest hword hnames'
      rw [valueLines, List.append_assoc, pairedPart_valueLine hname,
        List.forall_mem_cons]
      split
      · next hpaired =>
        rw [List.append_assoc]
        change _ = some (.value item.1 [.text item.2] :: (items.map stringStatement ++ out)) ↔ _
        rw [readOn_valueLine_iff hname.1 hnext, ih hnames']
        tauto
      · next hpaired =>
        refine iff_of_false ?_ fun h => hpaired h.1.1.2
        rw [List.append_assoc, readOn_valueHead hname.1]
        refine readOn_cut_ne ?_ hpaired
        rcases pairedPart_cases item.2 with h | ⟨u, cut, -, heq⟩
        · exact absurd h hpaired
        · exact ⟨u :: cut, heq.symm⟩

theorem wellFormed_valueLines_iff (hnames : ∀ item ∈ items, IsName item.1) :
    WellFormed (valueLines items ++ rest) ↔
      (∀ item ∈ items, WellFormed item.2) ∧ WellFormed rest := by
  induction items with
  | nil => exact ⟨fun h => ⟨nofun, h⟩, fun h => h.2⟩
  | cons item items ih =>
      have hend : NoSurrogate [0x0A] := noSurrogate_of_all (by decide)
      have hline : WellFormed (0x0A :: (valueLines items ++ rest)) ↔
          WellFormed (valueLines items ++ rest) := hend.wellFormed_append_iff
      have htext : WellFormed (item.2 ++ 0x22 :: 0x0A :: (valueLines items ++ rest)) ↔
          WellFormed item.2 ∧ WellFormed (valueLines items ++ rest) :=
        (wellFormed_append_cons (by decide) (by decide)).trans (and_congr_right' hline)
      have hsplit : valueLines (item :: items) ++ rest =
          valueHead item.1 ++ (item.2 ++ 0x22 :: 0x0A :: (valueLines items ++ rest)) := by
        rw [valueLines, valueLine, List.append_assoc, List.append_assoc, List.append_assoc]
        rfl
      rw [hsplit, (hnames item List.mem_cons_self).valueHead.wellFormed_append_iff, htext,
        ih fun x hx => hnames x (List.mem_cons_of_mem _ hx), List.forall_mem_cons, and_assoc]

theorem paired_valueLines (hnames : ∀ item ∈ items, IsName item.1)
    (h : ∀ item ∈ items, Paired item.2) : Paired (valueLines items) := by
  induction items with
  | nil => rfl
  | cons item items ih =>
      have hend : NoSurrogate [0x22, 0x0A] := noSurrogate_of_all (by decide)
      have hline : Paired (valueLine item.1 item.2) :=
        (hnames item List.mem_cons_self).valueHead.paired.append
          ((h item List.mem_cons_self).append hend.paired)
      exact hline.append (ih (fun x hx => hnames x (List.mem_cons_of_mem _ hx))
        fun x hx => h x (List.mem_cons_of_mem _ hx))

/-! ## The whole script -/

theorem mem_copyrightSigns {p : WString × WString} (h : p ∈ copyrightSigns) :
    p = (wide "(c)", [0xA9]) ∨ p = (wide "(C)", [0xA9]) := by
  rcases List.mem_cons.mp h with rfl | h
  · exact .inl rfl
  · exact .inr (List.mem_singleton.mp h)

theorem copyrightSigns_uniform : Uniform copyrightSigns := by
  refine ⟨fun p hp => ?_, fun p hp q hq => ?_, fun p hp q hq _ => ?_⟩
  · rcases mem_copyrightSigns hp with rfl | rfl <;> decide
  · rcases mem_copyrightSigns hp with rfl | rfl <;>
      rcases mem_copyrightSigns hq with rfl | rfl <;> rfl
  · rcases mem_copyrightSigns hp with rfl | rfl <;>
      rcases mem_copyrightSigns hq with rfl | rfl <;> rfl

/-- The template is the front, the lines of the strings, and the end. -/
theorem resourceText_eq (version : Version) :
    resourceText version =
      frontText (makeVersionPart version.fileVersion) (makeVersionPart version.productVersion) ++
        (valueLines version.strings ++ closingText) := by
  have hcopyright : replaceAll copyrightSigns version.legalCopyright =
      scan copyrightSigns version.legalCopyright :=
    replaceAll_eq_scan copyrightSigns_uniform version.legalCopyright
  have hproduct : wide "\nPRODUCTVERSION " = 0x0A :: wide "PRODUCTVERSION " := by decide
  have hmask : wide "\nFILEFLAGSMASK " = 0x0A :: wide "FILEFLAGSMASK " := by decide
  have hline : wide "\"\n" = [0x22, 0x0A] := by decide
  have hfirst : wide "VALUE \"CompanyName\", L\"" = valueHead (wide "CompanyName") := by
    decide
  have hheads : [wide "\"\nVALUE \"FileDescription\", L\"", wide "\"\nVALUE \"FileVersion\", L\"",
      wide "\"\nVALUE \"InternalName\", L\"", wide "\"\nVALUE \"LegalCopyright\", L\"",
      wide "\"\nVALUE \"OriginalFilename\", L\"", wide "\"\nVALUE \"ProductName\", L\"",
      wide "\"\nVALUE \"ProductVersion\", L\""] =
      [wide "FileDescription", wide "FileVersion", wide "InternalName", wide "LegalCopyright",
        wide "OriginalFilename", wide "ProductName", wide "ProductVersion"].map
        fun name => [0x22, 0x0A] ++ valueHead name := by
    decide
  simp only [List.map_cons, List.map_nil, List.cons.injEq] at hheads
  obtain ⟨h1, h2, h3, h4, h5, h6, h7, -⟩ := hheads
  unfold resourceText resources
  dsimp only
  rw [hcopyright, hproduct, hmask, hline, hfirst, h1, h2, h3, h4, h5, h6, h7]
  simp only [format, frontText, numberFields, valueLines, Version.strings, valueLine,
    List.append_assoc, List.flatten_cons, List.flatten_nil, List.append_nil]

theorem strings_isName (version : Version) : ∀ item ∈ version.strings, IsName item.1 := by
  have hall : ([wide "CompanyName", wide "FileDescription", wide "FileVersion",
      wide "InternalName", wide "LegalCopyright", wide "OriginalFilename", wide "ProductName",
      wide "ProductVersion"].all fun name => name.all fun u =>
        isPlain u && !isHighSurrogate u && !isLowSurrogate u) = true := by decide
  intro item hitem
  exact isName_of_all (List.all_eq_true.mp hall item.1 (List.mem_map_of_mem (f := Prod.fst) hitem))

theorem noSurrogate_formatInt (n : Int) : NoSurrogate (formatInt n) := by
  intro u hu
  have hword := isWordChar_formatInt hu
  have hascii : u ≤ 0x7F := by
    simp only [isWordChar, Bool.or_eq_true, Bool.and_eq_true, decide_eq_true_eq, beq_iff_eq]
      at hword
    rcases hword with (((h | h) | h) | rfl) | rfl
    · exact UInt16.le_trans h.2 (by decide)
    · exact UInt16.le_trans h.2 (by decide)
    · exact UInt16.le_trans h.2 (by decide)
    · decide
    · decide
  exact ⟨isHighSurrogate_of_le hascii, isLowSurrogate_of_le hascii⟩

theorem noSurrogate_numberFields (a b c d : Int) : NoSurrogate (numberFields a b c d) := by
  have hcomma : NoSurrogate (wide ", ") := noSurrogate_of_all (by decide)
  unfold numberFields
  exact (noSurrogate_formatInt a).append (hcomma.append ((noSurrogate_formatInt b).append
    (hcomma.append ((noSurrogate_formatInt c).append (hcomma.append (noSurrogate_formatInt d))))))

theorem noSurrogate_frontText (fv pv : VersionPart) : NoSurrogate (frontText fv pv) := by
  have hintro : NoSurrogate introText := noSurrogate_of_all (by decide)
  have hproduct : NoSurrogate (0x0A :: wide "PRODUCTVERSION ") :=
    noSurrogate_of_all (by decide)
  have hflags : NoSurrogate (0x0A :: wide "FILEFLAGSMASK " ++ flagsText) :=
    noSurrogate_of_all (by decide +kernel)
  unfold frontText
  exact hintro.append ((noSurrogate_numberFields _ _ _ _).append
    (hproduct.append ((noSurrogate_numberFields _ _ _ _).append hflags)))

theorem noSurrogate_closingText : NoSurrogate closingText :=
  noSurrogate_of_all (by decide)

theorem closingText_word : BeginsWithWord (closingText ++ [0x0A]) :=
  ⟨wide "END\n", closingText.drop 4 ++ [0x0A], .lineStart, wide "END", by decide,
    by decide⟩

theorem fixedStatements_append_inj {fv pv fv' pv' : List Int} {s t : List Statement} :
    fixedStatements fv pv ++ s = fixedStatements fv' pv' ++ t ↔ fv = fv' ∧ pv = pv' ∧ s = t := by
  constructor
  · intro h
    cases h
    exact ⟨rfl, rfl, rfl⟩
  · rintro ⟨rfl, rfl, rfl⟩
    rfl

/-- The third number can stand for the fourth one where they agree. -/
theorem values_eq_iff {part : VersionPart} {vs : WString} (h : makeVersionPart vs = part) :
    [part.majorPart, part.minorPart, part.buildPart, part.buildPart] = part.values ↔
      LastPartsAgree vs := by
  subst h
  unfold VersionPart.values LastPartsAgree
  simp only [List.cons.injEq, true_and, and_true]
  exact Iff.rfl

/-- What comes back from UTF-8 is read as the record exactly if the numbers agree and every
text can stand in a literal. -/
theorem readScript_pairedPart_iff (version : Version) :
    readScript (pairedPart (resourceText version)) = some version.statements ↔
      (LastPartsAgree version.fileVersion ∧ LastPartsAgree version.productVersion) ∧
      ∀ item ∈ version.strings, Plain item.2 ∧ Paired item.2 := by
  have hstrings : readOn .lineStart ([], .body 2)
      (pairedPart (valueLines version.strings ++ closingText) ++ [0x0A]) =
        some (version.strings.map stringStatement ++ closingStatements) ↔
      ∀ item ∈ version.strings, Plain item.2 ∧ Paired item.2 := by
    rw [readOn_valueLines_iff noSurrogate_closingText closingText_word (strings_isName version),
      and_iff_left readOn_closing]
  rw [resourceText_eq, (noSurrogate_frontText _ _).pairedPart_append, readScript,
    List.append_assoc, readOn_front, Option.map_eq_some_iff, ← hstrings, ← values_eq_iff rfl,
    ← values_eq_iff rfl, Version.statements, List.append_assoc]
  constructor
  · rintro ⟨out, hread, heq⟩
    obtain ⟨hfv, hpv, rfl⟩ := fixedStatements_append_inj.mp heq
    exact ⟨⟨hfv, hpv⟩, hread⟩
  · rintro ⟨⟨hfv, hpv⟩, hread⟩
    exact ⟨_, hread, fixedStatements_append_inj.mpr ⟨hfv, hpv, rfl⟩⟩

theorem wellFormed_resourceText_iff (version : Version) :
    WellFormed (resourceText version) ↔ ∀ item ∈ version.strings, WellFormed item.2 := by
  rw [resourceText_eq, (noSurrogate_frontText _ _).wellFormed_append_iff,
    wellFormed_valueLines_iff (strings_isName version),
    and_iff_left noSurrogate_closingText.wellFormed]

/-- A part that can stand in a literal and is not empty divides a text. -/
theorem plainText_append_iff {a x b : WString} (hne : x ≠ []) (hx : IsName x) :
    PlainText (a ++ (x ++ b)) ↔ PlainText a ∧ PlainText b := by
  obtain ⟨u, x, rfl⟩ := List.exists_cons_of_ne_nil hne
  obtain ⟨hhigh, hlow⟩ := hx.2 u List.mem_cons_self
  have hrest : NoSurrogate x := fun v hv => hx.2 v (List.mem_cons_of_mem _ hv)
  have hplain : Plain (a ++ (u :: x ++ b)) ↔ Plain a ∧ Plain b := by
    constructor
    · intro h
      exact ⟨fun c hc => h c (List.mem_append_left _ hc),
        fun c hc => h c (List.mem_append_right _ (List.mem_append_right _ hc))⟩
    · rintro ⟨ha, hb⟩ c hc
      rcases List.mem_append.mp hc with hc | hc
      · exact ha c hc
      · exact (List.mem_append.mp hc).elim (hx.1 c) (hb c)
  have hwell : WellFormed (a ++ (u :: x ++ b)) ↔ WellFormed a ∧ WellFormed b :=
    (wellFormed_append_cons hhigh hlow).trans (and_congr_right' hrest.wellFormed_append_iff)
  unfold PlainText
  rw [hplain, hwell]
  tauto

theorem plainText_scan_iff (text : WString) :
    PlainText (scan copyrightSigns text) ↔ PlainText text := by
  have hpair : ∀ p ∈ copyrightSigns, IsName p.1 ∧ IsName p.2 ∧ p.1 ≠ [] ∧ p.2 ≠ [] := by
    intro p hp
    rcases mem_copyrightSigns hp with rfl | rfl
    · exact ⟨isName_of_all (by decide), isName_of_all (by decide), by decide, by decide⟩
    · exact ⟨isName_of_all (by decide), isName_of_all (by decide), by decide, by decide⟩
  refine scan_preserves (fun p hp => (hpair p hp).2.2.1) (fun p hp a b b' hb => ?_) text
  obtain ⟨hold, hnew, hne, hne'⟩ := hpair p hp
  rw [plainText_append_iff hne hold, plainText_append_iff hne' hnew, hb]

theorem strings_plainText_iff (version : Version) :
    (∀ item ∈ version.strings, PlainText item.2) ↔
      ∀ text ∈ version.texts, PlainText text := by
  have hsign := plainText_scan_iff version.legalCopyright
  simp only [Version.strings, Version.texts, List.forall_mem_cons, List.not_mem_nil,
    false_imp_iff, implies_true, hsign]

/-- The file is the UTF-8 form of a script that says what the record says. -/
theorem readsAs_iff_strings (version : Version) :
    ReadsAs (makeResource version) version.statements ↔
      (LastPartsAgree version.fileVersion ∧ LastPartsAgree version.productVersion) ∧
      ∀ item ∈ version.strings, PlainText item.2 := by
  constructor
  · rintro ⟨cs, hfile, hread⟩
    have hcs : WellFormed (cs.flatMap utf16Units) := ⟨cs, rfl⟩
    have htext : pairedPart (resourceText version) = cs.flatMap utf16Units := by
      rw [← encodeUtf16_encodeUtf8]
      change encodeUtf16 (makeResource version) = _
      rw [hfile, ← encodeUtf8_flatMap_utf16Units, hcs.paired.decode]
    rw [← htext] at hread hcs
    obtain ⟨hnumbers, hitems⟩ := (readScript_pairedPart_iff version).mp hread
    have hpaired : Paired (resourceText version) := by
      rw [resourceText_eq]
      exact (noSurrogate_frontText _ _).paired.append
        ((paired_valueLines (strings_isName version) fun item hitem => (hitems item hitem).2).append
          noSurrogate_closingText.paired)
    rw [hpaired] at hcs
    have hwell := (wellFormed_resourceText_iff version).mp hcs
    exact ⟨hnumbers, fun item hitem => ⟨(hitems item hitem).1, hwell item hitem⟩⟩
  · rintro ⟨hnumbers, hitems⟩
    have hwell := (wellFormed_resourceText_iff version).mpr fun item hitem =>
      (hitems item hitem).2
    obtain ⟨cs, hcs⟩ := id hwell
    refine ⟨cs, ?_, ?_⟩
    · rw [makeResource, hcs, encodeUtf8_flatMap_utf16Units]
    · rw [← hcs, ← hwell.paired]
      refine (readScript_pairedPart_iff version).mpr ⟨hnumbers, fun item hitem => ?_⟩
      exact ⟨(hitems item hitem).1, (hitems item hitem).2.paired⟩

/-- The script says what the record says exactly if in both versions the third and the
fourth number agree and no text has a quote, a backslash, a line end or a surrogate that
stands alone. -/
theorem makeResource_readsAs_iff (version : Version) :
    ReadsAs (makeResource version) version.statements ↔
      (LastPartsAgree version.fileVersion ∧ LastPartsAgree version.productVersion) ∧
      ∀ text ∈ version.texts, PlainText text := by
  rw [readsAs_iff_strings, strings_plainText_iff]

/-- A record of a file whose version has four numbers. -/
def fourNumbers : Version where
  companyName := wide "Baulk contributors"
  fileDescription := wide "Git"
  fileVersion := wide "2.36.0.1"
  internalName := wide "git.exe"
  legalCopyright := wide "(c) Baulk contributors"
  originalFileName := wide "git.exe"
  productName := wide "Git"
  productVersion := wide "2.36.0.1"

/-- The fourth number is lost. -/
theorem fourNumbers_not_readsAs :
    ¬ ReadsAs (makeResource fourNumbers) fourNumbers.statements := by
  rw [readsAs_iff_strings]
  intro h
  have hthird : partAt (components (· == 0x2E) fourNumbers.fileVersion) 2 = 0 := by
    decide
  have hfourth : partAt (components (· == 0x2E) fourNumbers.fileVersion) 3 = 1 := by
    decide
  have hagree : (0 : Int) = 1 := hthird.symm.trans (h.1.1.trans hfourth)
  cases hagree

/-! ## Launchers -/

def stringOverwrite (s v : WString) : WString :=
  if v.isEmpty then s else v

/-- The record that `Builder::Compile` makes for a launcher.  What the version resource `vi`
of the executable has takes the place of what the package says. -/
def compileVersion (pkg : Pkg.Package) (linkMeta : Pkg.LinkMeta) (year : Int)
    (vi : Option Version) : Version :=
  let version : Version :=
    { companyName := pkg.name ++ wide " contributors"
      fileDescription := pkg.description
      fileVersion := pkg.version
      internalName := linkMeta.aliasName
      legalCopyright := wide "Copyright © " ++ (formatInt year ++
        (wide ", Baulk contributors " ++ (utf16Units '💞' ++ wide ".")))
      originalFileName := linkMeta.aliasName
      productName := pkg.name
      productVersion := pkg.version }
  match vi with
  | none => version
  | some vi =>
      { companyName := stringOverwrite version.companyName vi.companyName
        fileDescription := stringOverwrite version.fileDescription vi.fileDescription
        fileVersion := stringOverwrite version.fileVersion vi.fileVersion
        internalName := stringOverwrite version.internalName vi.internalName
        legalCopyright := stringOverwrite version.legalCopyright vi.legalCopyright
        originalFileName := stringOverwrite version.originalFileName vi.originalFileName
        productVersion := stringOverwrite version.productVersion vi.productVersion
        productName := stringOverwrite version.productName vi.productName }

theorem PlainText.append {a b : WString} (ha : PlainText a) (hb : PlainText b) :
    PlainText (a ++ b) := by
  refine ⟨fun c hc => ?_, ha.2.append hb.2⟩
  exact (List.mem_append.mp hc).elim (ha.1 c) (hb.1 c)

theorem IsName.plainText (h : IsName text) : PlainText text :=
  ⟨h.1, h.2.wellFormed⟩

theorem isPlain_of_isWordChar {c : WChar} (h : isWordChar c = true) : isPlain c = true := by
  have hne : ∀ {d : WChar}, isWordChar d = false → c ≠ d := by
    rintro d hd rfl
    rw [hd] at h
    cases h
  simp only [isPlain, Bool.and_eq_true, bne_iff_ne]
  exact ⟨⟨⟨hne (by decide), hne (by decide)⟩, hne (by decide)⟩, hne (by decide)⟩

theorem isName_formatInt (n : Int) : IsName (formatInt n) :=
  ⟨fun _ hc => isPlain_of_isWordChar (isWordChar_formatInt hc), noSurrogate_formatInt n⟩

/-- The copyright that a launcher has of its own can stand in a literal. -/
theorem plainText_copyright (year : Int) :
    PlainText (wide "Copyright © " ++ (formatInt year ++
      (wide ", Baulk contributors " ++ (utf16Units '💞' ++ wide ".")))) := by
  have hbefore : IsName (wide "Copyright © ") := isName_of_all (by decide)
  have hbehind : IsName (wide ", Baulk contributors ") := isName_of_all (by decide)
  have hdot : IsName (wide ".") := isName_of_all (by decide)
  have hsign : PlainText (utf16Units '💞') := by
    have hunits : utf16Units '💞' = [0xD83D, 0xDC9E] := by decide
    refine ⟨?_, ['💞'], (List.flatMap_singleton _ _).symm⟩
    rw [hunits]
    intro c hc
    simp only [List.mem_cons, List.not_mem_nil, or_false] at hc
    rcases hc with rfl | rfl <;> decide
  exact hbefore.plainText.append ((isName_formatInt year).plainText.append
    (hbehind.plainText.append (hsign.append hdot.plainText)))

/-- For an executable without a version resource it is the package's texts and the name of
the launcher that decide. -/
theorem compileVersion_readsAs_iff (pkg : Pkg.Package) (linkMeta : Pkg.LinkMeta) (year : Int) :
    ReadsAs (makeResource (compileVersion pkg linkMeta year none))
        (compileVersion pkg linkMeta year none).statements ↔
      LastPartsAgree pkg.version ∧ PlainText pkg.name ∧ PlainText pkg.description ∧
        PlainText pkg.version ∧ PlainText linkMeta.aliasName := by
  have hcompany : PlainText (pkg.name ++ wide " contributors") ↔ PlainText pkg.name := by
    have hempty : PlainText [] := ⟨fun _ hc => absurd hc List.not_mem_nil, [], rfl⟩
    have happend := plainText_append_iff (a := pkg.name) (b := [])
      (by decide : wide " contributors" ≠ []) (isName_of_all (by decide))
    rwa [List.append_nil, and_iff_left hempty] at happend
  have hcopyright := plainText_copyright year
  rw [readsAs_iff_strings, strings_plainText_iff]
  simp only [compileVersion, Version.texts, List.forall_mem_cons, List.not_mem_nil, hcompany,
    hcopyright, false_imp_iff, implies_true]
  tauto

end Baulk.Resource
