import Baulk.Core.Narrow
import Baulk.Net.FileName
import Baulk.Support.ComponentWalk

/-!
# Values of `Content-Disposition`

A value is a type and a list of parameters, whose values are tokens, quoted
strings or extended values with a character set and a language.  It asks for the
name in the parameter `filename*`, if that is in UTF-8, or else for the one in
`filename`.

`resolve_filename` reads one parameter.
-/

namespace Baulk.Net

open Numbers (asciiIsSpace)

/-! ## The grammar -/

/-- Neither a control nor a separator. -/
def isTokenChar (c : WChar) : Bool :=
  0x21 ≤ c && c ≤ 0x7E && !(wide "()<>@,;:\\\"/[]?=\x7b\x7d").contains c

def isAlphanumeric (c : WChar) : Bool :=
  (0x30 ≤ c && c ≤ 0x39) || (0x41 ≤ c && c ≤ 0x5A) || (0x61 ≤ c && c ≤ 0x7A)

def isCharsetChar (c : WChar) : Bool :=
  isAlphanumeric c || (wide "!#$%&+-^_\x60\x7b\x7d~").contains c

def isLanguageChar (c : WChar) : Bool :=
  isAlphanumeric c || c == 0x2D

/-- A character that an extended value need not encode. -/
def isAttrChar (c : WChar) : Bool :=
  isAlphanumeric c || (wide "!#$&+-.^_\x60|~").contains c

/-- White space that the grammar allows between its parts. -/
structure Blanks where
  text : WString
  blank : ∀ c ∈ text, c = 0x20 ∨ c = 0x09

structure Token where
  text : WString
  ne : text ≠ []
  chars : ∀ c ∈ text, isTokenChar c = true

/-- A character of a quoted string. -/
inductive QuotedChar where
  | plain (c : WChar) (quote : c ≠ 0x22) (backslash : c ≠ 0x5C)
  | escaped (c : WChar)

namespace QuotedChar

def text : QuotedChar → WString
  | plain c _ _ => [c]
  | escaped c => [0x5C, c]

def char : QuotedChar → WChar
  | plain c _ _ => c
  | escaped c => c

end QuotedChar

/-- A character of an extended value. -/
inductive ExtChar where
  | plain (c : UInt8) (attr : isAttrChar c.toUInt16 = true)
  | encoded (a b : UInt8) (n : UInt8) (couple : decodeByteCouple a b = some n)

namespace ExtChar

def text : ExtChar → WString
  | plain c _ => [c.toUInt16]
  | encoded a b _ _ => [0x25, a.toUInt16, b.toUInt16]

def byte : ExtChar → UInt8
  | plain c _ => c
  | encoded _ _ n _ => n

end ExtChar

/-- An extended value: the character set, the language, and the encoded text. -/
structure ExtValue where
  charset : WString
  charset_chars : ∀ c ∈ charset, isCharsetChar c = true
  language : WString
  language_chars : ∀ c ∈ language, isLanguageChar c = true
  chars : List ExtChar

namespace ExtValue

def text (e : ExtValue) : WString :=
  e.charset ++ 0x27 :: (e.language ++ 0x27 :: e.chars.flatMap ExtChar.text)

def isUtf8 (e : ExtValue) : Bool :=
  equalsIgnoreCase e.charset (wide "UTF-8")

/-- The text that the encoded bytes stand for. -/
def decoded (e : ExtValue) : WString :=
  encodeUtf16 (e.chars.map ExtChar.byte)

end ExtValue

inductive ParmValue where
  | token (t : Token)
  | quoted (content : List QuotedChar)

namespace ParmValue

def text : ParmValue → WString
  | token t => t.text
  | quoted content => 0x22 :: (content.flatMap QuotedChar.text ++ [0x22])

/-- The value without its quotes and escapes. -/
def unquoted : ParmValue → WString
  | token t => t.text
  | quoted content => content.map QuotedChar.char

end ParmValue

/-- A parameter; an extended one has a star behind its name. -/
inductive Parm where
  | plain (name : Token) (star : name.text.getLast? ≠ some 0x2A) (value : ParmValue)
  | ext (name : Token) (value : ExtValue)

namespace Parm

def name : Parm → WString
  | plain name _ _ => name.text
  | ext name _ => name.text ++ [0x2A]

def valueText : Parm → WString
  | plain _ _ value => value.text
  | ext _ value => value.text

/-- The name that a parameter `filename*` in UTF-8 asks for. -/
def askedExt : Parm → Option WString
  | plain _ _ _ => none
  | ext name value =>
      if equalsIgnoreCase name.text (wide "filename") && value.isUtf8 then
        some value.decoded
      else none

/-- The name that a parameter `filename` asks for. -/
def askedPlain : Parm → Option WString
  | plain name _ value =>
      if equalsIgnoreCase name.text (wide "filename") then some value.unquoted
      else none
  | ext _ _ => none

end Parm

/-- A parameter with the white space around its parts. -/
structure SpacedParm where
  before : Blanks
  parm : Parm
  behindName : Blanks
  beforeValue : Blanks
  behind : Blanks

def SpacedParm.text (p : SpacedParm) : WString :=
  p.before.text ++ (p.parm.name ++ p.behindName.text ++
    0x3D :: (p.beforeValue.text ++ p.parm.valueText)) ++ p.behind.text

structure Disposition where
  before : Blanks
  type : Token
  behind : Blanks
  parms : List SpacedParm

namespace Disposition

def text (d : Disposition) : WString :=
  d.before.text ++ d.type.text ++ d.behind.text ++
    d.parms.flatMap fun p => 0x3B :: p.text

/-- The name that the value asks for. -/
def askedName (d : Disposition) : Option WString :=
  (d.parms.findSome? fun p => p.parm.askedExt).or
    (d.parms.findSome? fun p => p.parm.askedPlain)

end Disposition

/-! ## White space -/

theorem Blanks.space (b : Blanks) : ∀ c ∈ b.text, asciiIsSpace c = true := by
  intro c hc
  rcases b.blank c hc with rfl | rfl
  · decide
  · decide

/-- A text that neither begins nor ends with white space. -/
structure Solid (s : WString) : Prop where
  ne : s ≠ []
  head : asciiIsSpace (s.head ne) = false
  last : asciiIsSpace (s.getLast ne) = false

theorem dropWhile_spaces {a s : WString} (ha : ∀ c ∈ a, asciiIsSpace c = true)
    (hs : Solid s) (b : WString) :
    (a ++ (s ++ b)).dropWhile asciiIsSpace = s ++ b := by
  rw [List.dropWhile_append_of_pos ha]
  have hhead := hs.head
  cases s with
  | nil => exact absurd rfl hs.ne
  | cons c s =>
      rw [List.cons_append, List.dropWhile_cons_of_neg]
      simpa using hhead

theorem stripLeading_spaces {a s : WString} (ha : ∀ c ∈ a, asciiIsSpace c = true)
    (hs : Solid s) (b : WString) : stripLeading (a ++ (s ++ b)) = s ++ b := by
  unfold stripLeading
  rw [dropWhile_spaces ha hs]
  have hne : (s ++ b).isEmpty = false := by
    rw [List.isEmpty_eq_false_iff]
    exact List.append_ne_nil_of_left_ne_nil hs.ne b
  simp only [hne, Bool.false_eq_true, if_false]

theorem rdropWhile_spaces {b : WString} (hb : ∀ c ∈ b, asciiIsSpace c = true)
    (t : WString) : (t ++ b).rdropWhile asciiIsSpace = t.rdropWhile asciiIsSpace := by
  unfold List.rdropWhile
  rw [List.reverse_append, List.dropWhile_append_of_pos]
  exact fun c hc => hb c (List.mem_reverse.mp hc)

theorem stripTrailing_spaces {s b : WString} (hs : Solid s)
    (hb : ∀ c ∈ b, asciiIsSpace c = true) :
    stripTrailing (s ++ b) = if s.length = 1 then s ++ b else s := by
  have hlast := hs.last
  cases s with
  | nil => exact absurd rfl hs.ne
  | cons c t =>
      unfold stripTrailing
      rw [List.cons_append, List.tail_cons, rdropWhile_spaces hb]
      cases t with
      | nil => rfl
      | cons c' t =>
          have hkept : (c' :: t).rdropWhile asciiIsSpace = c' :: t := by
            rw [List.rdropWhile_eq_self_iff]
            intro hne
            rw [List.getLast_cons hne] at hlast
            rw [hlast]
            exact Bool.false_ne_true
          have hlength : ¬ (c :: c' :: t).length = 1 := by simp
          rw [hkept, if_neg hlength]
          simp only [List.isEmpty_cons, Bool.false_eq_true, if_false]
          rw [List.take_succ_cons, List.take_left]

/-- White space on both sides goes, if there is more than one character. -/
theorem stripAsciiWhitespace_spaces {a s b : WString}
    (ha : ∀ c ∈ a, asciiIsSpace c = true) (hs : Solid s)
    (hb : ∀ c ∈ b, asciiIsSpace c = true) :
    stripAsciiWhitespace (a ++ (s ++ b)) = if s.length = 1 then s ++ b else s := by
  unfold stripAsciiWhitespace
  rw [stripLeading_spaces ha hs, stripTrailing_spaces hs hb]

theorem nil_spaces : ∀ c ∈ ([] : WString), asciiIsSpace c = true :=
  fun _ hc => absurd hc List.not_mem_nil

theorem stripAsciiWhitespace_solid {a s : WString}
    (ha : ∀ c ∈ a, asciiIsSpace c = true) (hs : Solid s) :
    stripAsciiWhitespace (a ++ s) = s := by
  have hstrip := stripAsciiWhitespace_spaces ha hs nil_spaces
  rwa [List.append_nil, ite_self] at hstrip

/-! ## One piece -/

/-- What `resolve_filename` makes of a name and a value. -/
def resolveParm (name value : WString) : Option WString :=
  if name = wide "filename" then some (consumeQuotes value)
  else if name ≠ wide "filename*" then none
  else
    match findTwoQuotes value with
    | none => some (consumeQuotes value)
    | some pos =>
        if equalsIgnoreCase (value.take pos) (wide "UTF-8") then
          some (encodeUtf16 (urlDecode (value.drop (pos + 2))))
        else none

/-- A single character with white space behind it is no longer name. -/
theorem append_ne_of_single {name b t : WString} (h : name.length = 1)
    (hb : ∀ c ∈ b, asciiIsSpace c = true)
    (ht : ∃ c ∈ t.tail, asciiIsSpace c = false) : name ++ b ≠ t := by
  rintro rfl
  obtain ⟨c, rfl⟩ := List.length_eq_one_iff.mp h
  obtain ⟨c', hc', hspace⟩ := ht
  exact absurd ((hb c' hc').symm.trans hspace) (by decide)

theorem Solid.append {s t : WString} (hs : Solid s) (ht : Solid t) (m : WString) :
    Solid (s ++ (m ++ t)) where
  ne := List.append_ne_nil_of_left_ne_nil hs.ne _
  head := by
    rw [List.head_append_of_ne_nil hs.ne]
    exact hs.head
  last := by
    have hne : m ++ t ≠ [] := List.append_ne_nil_of_right_ne_nil m ht.ne
    rw [List.getLast_append_of_ne_nil _ hne, List.getLast_append_of_ne_nil _ ht.ne]
    exact ht.last

theorem resolveFilename_body {before name behindName rest behind : WString}
    (hbefore : ∀ c ∈ before, asciiIsSpace c = true) (hname : Solid name)
    (hequals : (0x3D : WChar) ∉ name)
    (hbehindName : ∀ c ∈ behindName, asciiIsSpace c = true)
    (hsolid : Solid (name ++ behindName ++ 0x3D :: rest))
    (hbehind : ∀ c ∈ behind, asciiIsSpace c = true) :
    resolveFilename (before ++ (name ++ behindName ++ 0x3D :: rest) ++ behind) =
      resolveParm name (stripAsciiWhitespace rest) := by
  have hlength : ¬ (name ++ behindName ++ 0x3D :: rest).length = 1 := by
    have hpos := List.length_pos_iff.mpr hname.ne
    rw [List.length_append, List.length_append, List.length_cons]
    omega
  have hpiece := stripAsciiWhitespace_spaces hbefore hsolid hbehind
  rw [if_neg hlength, ← List.append_assoc] at hpiece
  have hfront : (0x3D : WChar) ∉ name ++ behindName := by
    rw [List.mem_append]
    rintro (hmem | hmem)
    · exact hequals hmem
    · exact absurd (hbehindName _ hmem) (by decide)
  have hfield := stripAsciiWhitespace_spaces nil_spaces hname hbehindName
  rw [List.nil_append] at hfield
  have hdrop : (name ++ behindName ++ 0x3D :: rest).drop ((name ++ behindName).length + 1) =
      rest := by
    rw [← List.drop_drop, List.drop_left]
    rfl
  have hparm : resolveFilename (before ++ (name ++ behindName ++ 0x3D :: rest) ++ behind) =
      resolveParm (stripAsciiWhitespace (name ++ behindName)) (stripAsciiWhitespace rest) := by
    unfold resolveFilename
    simp only [hpiece, Support.findIdx?_append_cons hfront, List.take_left, hdrop]
    rfl
  rw [hparm, hfield]
  by_cases hone : name.length = 1
  · have hplain : ∀ t : WString, (∃ c ∈ t.tail, asciiIsSpace c = false) →
        name ++ behindName ≠ t ∧ name ≠ t := by
      intro t ht
      refine ⟨append_ne_of_single hone hbehindName ht, ?_⟩
      have hnil := append_ne_of_single hone nil_spaces ht
      rwa [List.append_nil] at hnil
    have hfilename := hplain (wide "filename") ⟨0x69, by decide, by decide⟩
    have hstar := hplain (wide "filename*") ⟨0x69, by decide, by decide⟩
    unfold resolveParm
    rw [if_pos hone, if_neg hfilename.1, if_neg hfilename.2, if_pos hstar.1,
      if_pos hstar.2]
  · rw [if_neg hone]

theorem resolveFilename_piece {before name behindName beforeValue value behind : WString}
    (hbefore : ∀ c ∈ before, asciiIsSpace c = true) (hname : Solid name)
    (hequals : (0x3D : WChar) ∉ name)
    (hbehindName : ∀ c ∈ behindName, asciiIsSpace c = true)
    (hbeforeValue : ∀ c ∈ beforeValue, asciiIsSpace c = true) (hvalue : Solid value)
    (hbehind : ∀ c ∈ behind, asciiIsSpace c = true) :
    resolveFilename (before ++ (name ++ behindName ++
        0x3D :: (beforeValue ++ value)) ++ behind) =
      resolveParm name value := by
  have hsolid : Solid (name ++ behindName ++ 0x3D :: (beforeValue ++ value)) := by
    have happend := hname.append hvalue (behindName ++ 0x3D :: beforeValue)
    simpa only [List.append_assoc, List.cons_append] using happend
  rw [resolveFilename_body hbefore hname hequals hbehindName hsolid hbehind,
    stripAsciiWhitespace_solid hbeforeValue hvalue]

theorem resolveFilename_empty {before name behindName behind : WString}
    (hbefore : ∀ c ∈ before, asciiIsSpace c = true) (hname : Solid name)
    (hequals : (0x3D : WChar) ∉ name)
    (hbehindName : ∀ c ∈ behindName, asciiIsSpace c = true)
    (hbehind : ∀ c ∈ behind, asciiIsSpace c = true) :
    resolveFilename (before ++ (name ++ behindName ++ [0x3D]) ++ behind) =
      resolveParm name [] := by
  have hequal : Solid [(0x3D : WChar)] := ⟨List.cons_ne_nil _ _, by decide, by decide⟩
  have hsolid : Solid (name ++ behindName ++ [(0x3D : WChar)]) := by
    have happend := hname.append hequal behindName
    rwa [← List.append_assoc] at happend
  exact resolveFilename_body hbefore hname hequals hbehindName hsolid hbehind

/-! ## Characters -/

/-- A character that ends no part of a parameter. -/
structure Inert (c : WChar) : Prop where
  ascii : c.toNat < 0x80
  space : asciiIsSpace c = false
  quote : c ≠ 0x22
  semicolon : c ≠ 0x3B
  equals : c ≠ 0x3D

theorem asciiIsSpace_range {c : WChar} (h : asciiIsSpace c = true) :
    c.toNat ≤ 0x20 ∨ 0x7F ≤ c.toNat := by
  unfold asciiIsSpace at h
  rw [List.contains_iff_mem] at h
  have hall : [(0x20 : WChar), 0x09, 0x0A, 0x0D, 0x0B, 0x0C, 0x85, 0x2000, 0x2001,
      0x2002, 0x2003, 0x2004, 0x2005, 0x2006, 0x2008, 0x2009, 0x200A, 0x2028, 0x2029,
      0x205F, 0x3000].all (fun d => d.toNat ≤ 0x20 || 0x7F ≤ d.toNat) = true := by
    decide
  simpa using List.all_eq_true.mp hall c h

theorem inert_of_visible {c : WChar} (hlow : 0x21 ≤ c.toNat) (hhigh : c.toNat ≤ 0x7E)
    (hquote : c ≠ 0x22) (hsemicolon : c ≠ 0x3B) (hequals : c ≠ 0x3D) : Inert c where
  ascii := Nat.lt_succ_of_le (hhigh.trans (by decide))
  space := by
    rw [Bool.eq_false_iff]
    intro h
    have hrange := asciiIsSpace_range h
    omega
  quote := hquote
  semicolon := hsemicolon
  equals := hequals

theorem isTokenChar_inert {c : WChar} (h : isTokenChar c = true) : Inert c := by
  unfold isTokenChar at h
  rw [Bool.and_eq_true, Bool.and_eq_true, decide_eq_true_eq, decide_eq_true_eq,
    UInt16.le_iff_toNat_le, UInt16.le_iff_toNat_le] at h
  refine inert_of_visible h.1.1 h.1.2 ?_ ?_ ?_
  · rintro rfl
    exact absurd h.2 (by decide)
  · rintro rfl
    exact absurd h.2 (by decide)
  · rintro rfl
    exact absurd h.2 (by decide)

theorem isAlphanumeric_range {c : WChar} (h : isAlphanumeric c = true) :
    0x30 ≤ c.toNat ∧ c.toNat ≤ 0x39 ∨ 0x41 ≤ c.toNat ∧ c.toNat ≤ 0x5A ∨
      0x61 ≤ c.toNat ∧ c.toNat ≤ 0x7A := by
  unfold isAlphanumeric at h
  simp only [Bool.or_eq_true, Bool.and_eq_true, decide_eq_true_eq,
    UInt16.le_iff_toNat_le, or_assoc] at h
  exact h

theorem isAlphanumeric_inert {c : WChar} (h : isAlphanumeric c = true) :
    Inert c ∧ c ≠ 0x27 ∧ c ≠ 0x25 := by
  have hrange := isAlphanumeric_range h
  have hne : ∀ d : WChar, isAlphanumeric d = false → c ≠ d := by
    rintro d hd rfl
    exact absurd (h.symm.trans hd) (by decide)
  refine ⟨inert_of_visible (by omega) (by omega) (hne _ (by decide)) (hne _ (by decide))
    (hne _ (by decide)), hne _ (by decide), hne _ (by decide)⟩

/-- What the characters outside of the texts of a parameter have in common. -/
theorem listed_inert {s : WString} {c : WChar} (hc : s.contains c = true)
    (hall : s.all (fun d => 0x21 ≤ d.toNat && d.toNat ≤ 0x7E && d != 0x22 && d != 0x3B &&
      d != 0x3D && d != 0x27) = true) : Inert c ∧ c ≠ 0x27 := by
  have hchar := List.all_eq_true.mp hall c (List.contains_iff_mem.mp hc)
  simp only [Bool.and_eq_true, decide_eq_true_eq, bne_iff_ne, ne_eq] at hchar
  obtain ⟨⟨⟨⟨⟨hlow, hhigh⟩, hquote⟩, hsemicolon⟩, hequals⟩, happ⟩ := hchar
  exact ⟨inert_of_visible hlow hhigh hquote hsemicolon hequals, happ⟩

theorem isCharsetChar_inert {c : WChar} (h : isCharsetChar c = true) :
    Inert c ∧ c ≠ 0x27 := by
  rcases Bool.or_eq_true_iff.mp h with h | h
  · exact ⟨(isAlphanumeric_inert h).1, (isAlphanumeric_inert h).2.1⟩
  · exact listed_inert h (by decide)

theorem isLanguageChar_inert {c : WChar} (h : isLanguageChar c = true) :
    Inert c ∧ c ≠ 0x27 := by
  rcases Bool.or_eq_true_iff.mp h with h | h
  · exact ⟨(isAlphanumeric_inert h).1, (isAlphanumeric_inert h).2.1⟩
  · rw [beq_iff_eq.mp h]
    exact ⟨inert_of_visible (by decide) (by decide) (by decide) (by decide) (by decide),
      by decide⟩

theorem isAttrChar_inert {c : WChar} (h : isAttrChar c = true) :
    Inert c ∧ c ≠ 0x27 ∧ c ≠ 0x25 := by
  rcases Bool.or_eq_true_iff.mp h with h | h
  · exact isAlphanumeric_inert h
  · obtain ⟨hinert, happ⟩ := listed_inert h (by decide)
    refine ⟨hinert, happ, ?_⟩
    rintro rfl
    exact absurd h (by decide)

theorem isAlphanumeric_of_hexval {c : UInt8} {n : Nat} (h : hexval c = some n) :
    isAlphanumeric c.toUInt16 = true := by
  unfold hexval at h
  unfold isAlphanumeric
  simp only [UInt8.le_iff_toNat_le] at h
  simp only [Bool.or_eq_true, Bool.and_eq_true, decide_eq_true_eq,
    UInt16.le_iff_toNat_le, UInt8.toNat_toUInt16]
  split at h
  · rename_i hdigit
    exact .inl (.inl hdigit)
  · split at h
    · rename_i hupper
      exact .inl (.inr ⟨hupper.1, hupper.2.trans (by decide)⟩)
    · split at h
      · rename_i hlower
        exact .inr ⟨hlower.1, hlower.2.trans (by decide)⟩
      · cases h

theorem hexval_of_decodeByteCouple {a b n : UInt8} (h : decodeByteCouple a b = some n) :
    ∃ i j, hexval a = some i ∧ hexval b = some j := by
  unfold decodeByteCouple at h
  cases ha : hexval a with
  | none =>
      rw [ha] at h
      cases h
  | some i =>
      cases hb : hexval b with
      | none =>
          rw [ha, hb] at h
          cases h
      | some j => exact ⟨i, j, rfl, rfl⟩

theorem ExtChar.text_inert (x : ExtChar) : ∀ c ∈ x.text, Inert c ∧ c ≠ 0x27 := by
  intro c hc
  cases x with
  | plain d attr =>
      rw [List.mem_singleton.mp hc]
      obtain ⟨hinert, happ, -⟩ := isAttrChar_inert attr
      exact ⟨hinert, happ⟩
  | encoded a b n couple =>
      obtain ⟨i, j, ha, hb⟩ := hexval_of_decodeByteCouple couple
      rcases List.mem_cons.mp hc with rfl | hc
      · exact ⟨inert_of_visible (by decide) (by decide) (by decide) (by decide)
          (by decide), by decide⟩
      · rcases List.mem_pair.mp hc with rfl | rfl
        · have hinert := isAlphanumeric_inert (isAlphanumeric_of_hexval ha)
          exact ⟨hinert.1, hinert.2.1⟩
        · have hinert := isAlphanumeric_inert (isAlphanumeric_of_hexval hb)
          exact ⟨hinert.1, hinert.2.1⟩

theorem ExtValue.chars_inert (e : ExtValue) :
    ∀ c ∈ e.chars.flatMap ExtChar.text, Inert c ∧ c ≠ 0x27 := by
  intro c hc
  obtain ⟨x, -, hx⟩ := List.mem_flatMap.mp hc
  exact x.text_inert c hx

theorem ExtValue.text_inert (e : ExtValue) : ∀ c ∈ e.text, Inert c := by
  have happ : Inert 0x27 :=
    inert_of_visible (by decide) (by decide) (by decide) (by decide) (by decide)
  intro c hc
  unfold ExtValue.text at hc
  rw [List.mem_append, List.mem_cons, List.mem_append, List.mem_cons] at hc
  rcases hc with hc | rfl | hc | rfl | hc
  · exact (isCharsetChar_inert (e.charset_chars c hc)).1
  · exact happ
  · exact (isLanguageChar_inert (e.language_chars c hc)).1
  · exact happ
  · exact (e.chars_inert c hc).1

theorem solid_of_inert {s : WString} (hne : s ≠ []) (h : ∀ c ∈ s, Inert c) : Solid s where
  ne := hne
  head := (h _ (List.head_mem hne)).space
  last := (h _ (List.getLast_mem hne)).space

theorem Token.inert (t : Token) : ∀ c ∈ t.text, Inert c :=
  fun c hc => isTokenChar_inert (t.chars c hc)

theorem Parm.name_inert (p : Parm) : ∀ c ∈ p.name, Inert c := by
  intro c hc
  cases p with
  | plain name star value => exact name.inert c hc
  | ext name value =>
      rcases List.mem_append.mp hc with hc | hc
      · exact name.inert c hc
      · rw [List.mem_singleton.mp hc]
        exact inert_of_visible (by decide) (by decide) (by decide) (by decide) (by decide)

theorem Parm.name_ne (p : Parm) : p.name ≠ [] := by
  cases p with
  | plain name star value => exact name.ne
  | ext name value => exact List.append_ne_nil_of_left_ne_nil name.ne _

theorem Parm.solid_valueText (p : Parm) : Solid p.valueText := by
  cases p with
  | plain name star value =>
      cases value with
      | token t => exact solid_of_inert t.ne t.inert
      | quoted content =>
          have hquote : asciiIsSpace 0x22 = false := by decide
          refine ⟨List.cons_ne_nil _ _, hquote, ?_⟩
          change asciiIsSpace (List.getLast (0x22 :: (_ ++ [0x22])) _) = false
          rw [List.getLast_cons (by simp), List.getLast_append_singleton]
          exact hquote
  | ext name value =>
      refine solid_of_inert ?_ value.text_inert
      exact List.append_ne_nil_of_right_ne_nil _ (List.cons_ne_nil _ _)

/-! ## Quotes -/

theorem consumeQuotes_of_not_mem {v : WString} (h : (0x22 : WChar) ∉ v) :
    consumeQuotes v = v := by
  have hhead : v.head? ≠ some 0x22 := fun heq => h (List.mem_of_head? heq)
  have hlast : v.getLast? ≠ some 0x22 := fun heq => h (List.mem_of_getLast? heq)
  unfold consumeQuotes
  simp only [if_neg hhead, if_neg hlast]

theorem consumeQuotes_quoted (raw : WString) :
    consumeQuotes (0x22 :: (raw ++ [0x22])) = raw := by
  unfold consumeQuotes
  simp only [List.head?_cons, if_true, List.tail_cons, List.getLast?_concat,
    List.dropLast_concat]

theorem findTwoQuotes_cons (c : WChar) (v : WString) :
    findTwoQuotes (c :: v) = if c = 0x27 ∧ v.head? = some 0x27 then some 0
      else (findTwoQuotes v).map (· + 1) := by
  have hfront : [(0x27 : WChar), 0x27].isPrefixOf (c :: v) = true ↔
      c = 0x27 ∧ v.head? = some 0x27 := by
    rw [List.isPrefixOf_iff_prefix, List.cons_prefix_cons]
    cases v with
    | nil => simp
    | cons d v => simp [eq_comm]
  unfold findTwoQuotes
  rw [List.tails_cons, List.findIdx?_cons]
  by_cases h : c = 0x27 ∧ v.head? = some 0x27
  · rw [if_pos h, if_pos (hfront.mpr h)]
  · rw [if_neg h, if_neg (mt hfront.mp h)]

theorem findTwoQuotes_append {a : WString} (h : (0x27 : WChar) ∉ a) (v : WString) :
    findTwoQuotes (a ++ v) = (findTwoQuotes v).map (· + a.length) := by
  induction a with
  | nil =>
      rw [List.nil_append]
      cases findTwoQuotes v with
      | none => rfl
      | some n => rfl
  | cons c a ih =>
      rw [List.mem_cons, not_or] at h
      rw [List.cons_append, findTwoQuotes_cons, if_neg fun hc => h.1 hc.1.symm, ih h.2,
        Option.map_map]
      rfl

theorem findTwoQuotes_of_not_mem {v : WString} (h : (0x27 : WChar) ∉ v) :
    findTwoQuotes v = none := by
  have hnil := findTwoQuotes_append h []
  rw [List.append_nil] at hnil
  exact hnil

theorem findTwoQuotes_text (e : ExtValue) :
    findTwoQuotes e.text = if e.language = [] then some e.charset.length else none := by
  have hcharset : (0x27 : WChar) ∉ e.charset := fun h =>
    (isCharsetChar_inert (e.charset_chars _ h)).2 rfl
  have hlanguage : (0x27 : WChar) ∉ e.language := fun h =>
    (isLanguageChar_inert (e.language_chars _ h)).2 rfl
  have hchars : (0x27 : WChar) ∉ e.chars.flatMap ExtChar.text := fun h =>
    (e.chars_inert _ h).2 rfl
  unfold ExtValue.text
  rw [findTwoQuotes_append hcharset, findTwoQuotes_cons]
  by_cases hnil : e.language = []
  · rw [hnil, List.nil_append, if_pos ⟨rfl, rfl⟩, if_pos rfl, Option.map_some,
      Nat.zero_add]
  · have hhead : (e.language ++ 0x27 :: e.chars.flatMap ExtChar.text).head? ≠
        some 0x27 := by
      rw [List.head?_append_of_ne_nil _ hnil]
      exact fun heq => hlanguage (List.mem_of_head? heq)
    have hrest : findTwoQuotes (0x27 :: e.chars.flatMap ExtChar.text) = none := by
      rw [findTwoQuotes_cons, findTwoQuotes_of_not_mem hchars, if_neg]
      · rfl
      · exact fun h => hchars (List.mem_of_head? h.2)
    rw [if_neg fun h => hhead h.2, findTwoQuotes_append hlanguage, hrest, if_neg hnil]
    rfl

/-! ## Decoding -/

theorem encodeUtf8_cons_byte {b : UInt8} (h : b.toNat < 0x80) (rest : WString) :
    encodeUtf8 (b.toUInt16 :: rest) = b :: encodeUtf8 rest := by
  have hhigh : isHighSurrogate b.toUInt16 = false := by
    unfold isHighSurrogate
    rw [Bool.and_eq_false_iff]
    left
    rw [decide_eq_false_iff_not, UInt16.le_iff_toNat_le, UInt8.toNat_toUInt16]
    exact fun hle => absurd (hle.trans_lt h) (by decide)
  have hrune : b.toUInt16.toUInt32 ≤ 0x7F := by
    rw [UInt32.le_iff_toNat_le, UInt16.toNat_toUInt32, UInt8.toNat_toUInt16]
    exact Nat.le_of_lt_succ h
  rw [encodeUtf8_cons hhigh]
  have hback : b.toUInt16.toUInt32.toUInt8 = b := by
    rw [← UInt8.toNat_inj, UInt32.toNat_toUInt8, UInt16.toNat_toUInt32,
      UInt8.toNat_toUInt16]
    omega
  unfold encodeRune
  rw [if_pos hrune, hback]
  rfl

theorem encodeUtf8_text (x : ExtChar) (rest : WString) :
    ∃ bytes, encodeUtf8 (x.text ++ rest) = bytes ++ encodeUtf8 rest ∧
      ∀ more, decodePercent (bytes ++ more) =
        (if x.byte ≠ 0 then [x.byte] else []) ++ decodePercent more := by
  cases x with
  | plain c attr =>
      obtain ⟨hinert, -, hpercent⟩ := isAttrChar_inert attr
      have hbyte : c.toNat < 0x80 := UInt8.toNat_toUInt16 c ▸ hinert.ascii
      refine ⟨[c], encodeUtf8_cons_byte hbyte rest, fun more => ?_⟩
      have hne : c ≠ 0x25 := fun h => hpercent (congrArg UInt8.toUInt16 h)
      have hzero : c ≠ 0 := by
        rintro rfl
        exact absurd attr (by decide)
      change decodePercent (c :: more) = (if c ≠ 0 then [c] else []) ++ _
      rw [decodePercent_plain hne, if_pos hzero]
      rfl
  | encoded a b n couple =>
      obtain ⟨i, j, ha, hb⟩ := hexval_of_decodeByteCouple couple
      have hbyte : ∀ {d : UInt8} {k : Nat}, hexval d = some k → d.toNat < 0x80 :=
        fun {d} _ hd => UInt8.toNat_toUInt16 d ▸
          (isAlphanumeric_inert (isAlphanumeric_of_hexval hd)).1.ascii
      refine ⟨[0x25, a, b], ?_, fun more => ?_⟩
      · change encodeUtf8 ((0x25 : UInt8).toUInt16 :: a.toUInt16 :: b.toUInt16 :: rest) = _
        rw [encodeUtf8_cons_byte (by decide), encodeUtf8_cons_byte (hbyte ha),
          encodeUtf8_cons_byte (hbyte hb)]
        rfl
      · change decodePercent (0x25 :: a :: b :: more) =
          (if n ≠ 0 then [n] else []) ++ _
        rw [decodePercent, if_neg (fun h => h rfl)]
        simp only [couple]
        by_cases hn : n = 0
        · subst hn
          rfl
        · have hpos : n > 0 := by
            rw [gt_iff_lt, UInt8.lt_iff_toNat_lt]
            exact Nat.pos_of_ne_zero fun h => hn (UInt8.toNat_inj.mp h)
          rw [if_pos hpos, if_pos hn]
          rfl

theorem urlDecode_chars (chars : List ExtChar) :
    urlDecode (chars.flatMap ExtChar.text) =
      (chars.map ExtChar.byte).filter (· ≠ 0) := by
  unfold urlDecode
  induction chars with
  | nil => rfl
  | cons x chars ih =>
      obtain ⟨bytes, hencode, hdecode⟩ :=
        encodeUtf8_text x (chars.flatMap ExtChar.text)
      rw [List.flatMap_cons, hencode, hdecode, ih, List.map_cons, List.filter_cons]
      by_cases hzero : x.byte ≠ 0
      · rw [if_pos hzero, if_pos (decide_eq_true hzero)]
        rfl
      · rw [if_neg hzero, if_neg (mt of_decide_eq_true hzero)]
        rfl

/-! ## What is taken -/

/-- The value without its quotes, with its escapes. -/
def ParmValue.raw : ParmValue → WString
  | token t => t.text
  | quoted content => content.flatMap QuotedChar.text

/-- The name that is taken from a parameter without semicolons in its value: the
names are compared as they are spelled, and the escapes of a quoted string
stay, as do the character set and the language if there is a language. -/
def Parm.taken : Parm → Option WString
  | plain name _ value =>
      if name.text = wide "filename" then some value.raw else none
  | ext name value =>
      if name.text ≠ wide "filename" then none
      else if value.language ≠ [] then some value.text
      else if value.isUtf8 then
        some (encodeUtf16 ((value.chars.map ExtChar.byte).filter (· ≠ 0)))
      else none

theorem Parm.resolveParm_eq (p : Parm) : resolveParm p.name p.valueText = p.taken := by
  cases p with
  | plain name star value =>
      have hstar : name.text ≠ wide "filename*" := by
        intro h
        rw [h] at star
        exact star (by decide)
      have hraw : consumeQuotes value.text = value.raw := by
        cases value with
        | token t => exact consumeQuotes_of_not_mem fun h => (t.inert _ h).quote rfl
        | quoted content => exact consumeQuotes_quoted _
      change resolveParm name.text value.text = _
      unfold resolveParm Parm.taken
      rw [if_pos hstar, hraw]
  | ext name value =>
      have hplain : name.text ++ [0x2A] ≠ wide "filename" := by
        intro h
        have hlast := congrArg List.getLast? h
        rw [List.getLast?_concat] at hlast
        exact absurd hlast (by decide)
      have hname : name.text ++ [0x2A] = wide "filename*" ↔ name.text = wide "filename" :=
        @List.append_left_inj _ _ (wide "filename") [0x2A]
      have hraw : consumeQuotes value.text = value.text :=
        consumeQuotes_of_not_mem fun h => (value.text_inert _ h).quote rfl
      change resolveParm (name.text ++ [0x2A]) value.text = _
      unfold resolveParm Parm.taken
      dsimp only
      rw [if_neg hplain, findTwoQuotes_text]
      by_cases hfilename : name.text = wide "filename"
      · rw [if_neg (not_not.mpr (hname.mpr hfilename)), if_neg (not_not.mpr hfilename)]
        by_cases hlanguage : value.language = []
        · have htake : value.text.take value.charset.length = value.charset :=
            List.take_left
          have hdrop : value.text.drop (value.charset.length + 2) =
              value.chars.flatMap ExtChar.text := by
            unfold ExtValue.text
            rw [hlanguage, ← List.drop_drop, List.drop_left]
            rfl
          rw [if_pos hlanguage, if_neg (not_not.mpr hlanguage)]
          simp only [htake, hdrop, urlDecode_chars]
          rfl
        · rw [if_neg hlanguage, if_pos hlanguage, hraw]
      · rw [if_pos (mt hname.mp hfilename), if_pos hfilename]

end Baulk.Net
