import Baulk.Core.Characters
import Baulk.Resource.Tokens

/-!
# Statements of resource scripts

The tokens of a script go through the directives of the preprocessor and are then read as
version resources: fixed information, and blocks of values.  A script is read from the
file when the file is UTF-8.
-/

namespace Baulk.Resource

open Support

inductive Datum where
  | number (value : Int)
  | text (text : WString)
  deriving DecidableEq

inductive Statement where
  | versionInfo (name : WString)
  | fixed (keyword : WString) (values : List Int)
  | beginBlock (name : WString)
  | value (name : WString) (data : List Datum)
  | endBlock
  deriving DecidableEq

/-- What was read of a statement; `depth` counts the blocks inside the resource. -/
inductive Place where
  | outside
  | named (name : WString)
  | fixedInfo
  | expectNumber (keyword : WString) (values : List Int)
  | numbers (keyword : WString) (values : List Int)
  | body (depth : Nat)
  | blockName (depth : Nat)
  | blockBegin (depth : Nat) (name : WString)
  | valueName (depth : Nat)
  | valueComma (depth : Nat) (name : WString)
  | datum (depth : Nat) (name : WString) (data : List Datum)
  | data (depth : Nat) (name : WString) (data : List Datum)
  deriving DecidableEq

/-- The conditions that hold, the innermost one first, and the place. -/
abbrev Reader := List Bool × Place

def fixedKeywords : List WString :=
  [wide "FILEVERSION", wide "PRODUCTVERSION", wide "FILEFLAGSMASK", wide "FILEFLAGS",
    wide "FILEOS", wide "FILETYPE", wide "FILESUBTYPE"]

/-- The next token of the fixed information. -/
def fixedStep : Token → Option (Place × List Statement)
  | .word w =>
      if w = wide "BEGIN" then some (.body 0, [])
      else if fixedKeywords.contains w then some (.expectNumber w [], [])
      else none
  | _ => none

/-- The next token of a block. -/
def bodyStep (depth : Nat) : Token → Option (Place × List Statement)
  | .word w =>
      if w = wide "BLOCK" then some (.blockName depth, [])
      else if w = wide "VALUE" then some (.valueName depth, [])
      else if w = wide "END" then
        some (match depth with
          | 0 => .outside
          | depth + 1 => .body depth, [.endBlock])
      else none
  | _ => none

def placeStep : Place → Token → Option (Place × List Statement)
  | .outside, .word w => some (.named w, [])
  | .named name, .word w =>
      if w = wide "VERSIONINFO" then some (.fixedInfo, [.versionInfo name]) else none
  | .fixedInfo, t => fixedStep t
  | .expectNumber keyword values, .number n => some (.numbers keyword (values ++ [n]), [])
  | .numbers keyword values, .comma => some (.expectNumber keyword values, [])
  | .numbers keyword values, t => (fixedStep t).map (emit [.fixed keyword values])
  | .body depth, t => bodyStep depth t
  | .blockName depth, .literal name => some (.blockBegin depth name, [])
  | .blockBegin depth name, .word w =>
      if w = wide "BEGIN" then some (.body (depth + 1), [.beginBlock name]) else none
  | .valueName depth, .literal name => some (.valueComma depth name, [])
  | .valueComma depth name, .comma => some (.datum depth name [], [])
  | .datum depth name data, .number n => some (.data depth name (data ++ [.number n]), [])
  | .datum depth name data, .literal text => some (.data depth name (data ++ [.text text]), [])
  | .data depth name data, .comma => some (.datum depth name data, [])
  | .data depth name data, t => (bodyStep depth t).map (emit [.value name data])
  | _, _ => none

/-- A directive of the preprocessor; no macro is defined. -/
def directiveStep (conditions : List Bool) (text : WString) : Option (List Bool) :=
  let name := text.takeWhile isWordChar
  if name = wide "include" then some conditions
  else if name = wide "ifdef" then some (false :: conditions)
  else if name = wide "else" then
    match conditions with
    | [] => none
    | condition :: conditions => some ((!condition) :: conditions)
  else if name = wide "endif" then conditions.tail?
  else none

/-- The next token; it is skipped where a condition does not hold. -/
def readStep (r : Reader) : Token → Option (Reader × List Statement)
  | .directive text => (directiveStep r.1 text).map fun conditions => ((conditions, r.2), [])
  | t =>
      if r.1.all id then (placeStep r.2 t).map fun r' => ((r.1, r'.1), r'.2)
      else some (r, [])

/-- Read on to the end, where nothing may be open. -/
def readOn (mode : Mode) (r : Reader) (text : WString) : Option (List Statement) :=
  (stages lexStep readStep (mode, r) text).bind fun result =>
    if result.1.2 = ([], .outside) then some result.2 else none

/-- Read a script.  The end of a text ends its last line. -/
def readScript (text : WString) : Option (List Statement) :=
  readOn .lineStart ([], .outside) (text ++ [0x0A])

/-- A file is read as a sequence of statements: it is the UTF-8 form of a script. -/
def ReadsAs (file : Bytes) (statements : List Statement) : Prop :=
  ∃ cs : List Char, file = cs.flatMap String.utf8EncodeChar ∧
    readScript (cs.flatMap utf16Units) = some statements

/-! ## Reading on -/

variable {mode mode' : Mode} {r r' : Reader} {s : WString} {tokens : List Token}
  {out : List Statement}

theorem readOn_append (h : transduce lexStep mode s = some (mode', tokens))
    (h' : transduce readStep r tokens = some (r', out)) (rest : WString) :
    readOn mode r (s ++ rest) = (readOn mode' r' rest).map (out ++ ·) := by
  unfold readOn
  rw [stages_append_of h h', Option.bind_map, Option.map_bind]
  congr 1
  funext result
  rw [Function.comp_apply, Function.comp_apply]
  change (if result.1.2 = ([], Place.outside) then some (out ++ result.2) else none) = _
  split <;> rfl

theorem readOn_silent (h : transduce lexStep mode s = some (mode', tokens))
    (h' : transduce readStep r tokens = some (r', [])) (rest : WString) :
    readOn mode r (s ++ rest) = readOn mode' r' rest := by
  rw [readOn_append h h']
  exact Option.map_id_apply

/-! ## Values -/

/-- A value whose first datum is a text is being read. -/
def Holds (name text : WString) (r : Reader) : Prop :=
  ∃ depth more, r.2 = .datum depth name (.text text :: more) ∨
    r.2 = .data depth name (.text text :: more)

variable {name text : WString} {depth : Nat} {data : List Datum} {t : Token}

theorem holds_placeStep {place place' : Place} {depth : Nat} {more : List Datum}
    (h : place = .datum depth name (.text text :: more) ∨
      place = .data depth name (.text text :: more))
    (hstep : placeStep place t = some (place', out)) :
    (out = [] ∧ ∃ more', place' = .datum depth name (.text text :: more') ∨
      place' = .data depth name (.text text :: more')) ∨
    ∃ later, out = .value name (.text text :: more) :: later := by
  rcases h with rfl | rfl
  · cases t with
    | number n =>
        cases hstep
        exact .inl ⟨rfl, more ++ [.number n], .inr rfl⟩
    | literal s =>
        cases hstep
        exact .inl ⟨rfl, more ++ [.text s], .inr rfl⟩
    | _ => cases hstep
  · cases t with
    | comma =>
        cases hstep
        exact .inl ⟨rfl, more, .inl rfl⟩
    | word w =>
        obtain ⟨r, -, heq⟩ := Option.map_eq_some_iff.mp hstep
        cases heq
        exact .inr ⟨r.2, rfl⟩
    | _ => cases hstep

theorem holds_readStep (h : Holds name text r) (hstep : readStep r t = some (r', out)) :
    (out = [] ∧ Holds name text r') ∨
      ∃ more later, out = .value name (.text text :: more) :: later := by
  obtain ⟨depth, more, hplace⟩ := h
  have hother : ((if r.1.all id then (placeStep r.2 t).map fun r' => ((r.1, r'.1), r'.2)
      else some (r, [])) = some (r', out)) →
      (out = [] ∧ Holds name text r') ∨
        ∃ more later, out = .value name (.text text :: more) :: later := by
    intro hstep
    split at hstep
    · obtain ⟨q, hq, heq⟩ := Option.map_eq_some_iff.mp hstep
      cases heq
      rcases holds_placeStep hplace hq with ⟨hnil, more', hplace'⟩ | ⟨later, hout⟩
      · exact .inl ⟨hnil, depth, more', hplace'⟩
      · exact .inr ⟨more, later, hout⟩
    · cases hstep
      exact .inl ⟨rfl, depth, more, hplace⟩
  cases t with
  | directive s =>
      obtain ⟨conditions, -, heq⟩ := Option.map_eq_some_iff.mp hstep
      cases heq
      exact .inl ⟨rfl, depth, more, hplace⟩
  | word s => exact hother hstep
  | number n => exact hother hstep
  | literal s => exact hother hstep
  | comma => exact hother hstep

/-- Where nothing is open in the end, the value is what is put out first. -/
theorem transduce_holds (h : Holds name text r)
    (hread : transduce readStep r tokens = some (([], .outside), out)) :
    ∃ more later, out = .value name (.text text :: more) :: later := by
  have hfirst := first_output (fun q _ => Holds name text q) [] (fun hq hstep => by
    rcases holds_readStep hq hstep with ⟨-, hq'⟩ | ⟨more, later, hout⟩
    · exact hq'
    · cases hout) h hread
  rcases hfirst with ⟨-, depth, more, hplace | hplace⟩ |
    ⟨front, a, back, q, q', b, now, later, -, hq, hstep, rfl, -⟩
  · cases hplace
  · cases hplace
  · rcases holds_readStep hq hstep with ⟨hnil, -⟩ | ⟨more, later', hout⟩
    · cases hnil
    · exact ⟨more, later' ++ later, by rw [hout]; rfl⟩

theorem readOn_literal (hline : (0x0A : WChar) ∈ s)
    (h : readOn (.literal []) ([], .datum depth name []) s = some out) :
    ∃ text body rest more later, s = body ++ 0x22 :: rest ∧ Spelled text body ∧
      0x0A ∉ body ∧ out = .value name (.text text :: more) :: later := by
  unfold readOn stages at h
  simp only [Option.bind_eq_some_iff, Option.map_eq_some_iff] at h
  obtain ⟨_, ⟨⟨mode, tokens⟩, hlex, ⟨r', out'⟩, hread, rfl⟩, hend⟩ := h
  split at hend
  · next hclosed =>
    cases hend
    dsimp only at hclosed hread
    obtain ⟨text, body, rest, tokens, rfl, hs, hspelled, hbody⟩ := transduce_literal hline hlex
    rw [transduce_cons_of (rfl : readStep ([], .datum depth name []) (.literal text) =
      some (([], .data depth name [.text text]), [])), Option.map_eq_some_iff] at hread
    obtain ⟨⟨r'', out''⟩, hread, heq⟩ := hread
    cases heq
    change r'' = _ at hclosed
    change transduce readStep ([], .data depth name [.text text]) tokens = some (r'', out'')
      at hread
    rw [hclosed] at hread
    have hholds : Holds name text ([], .data depth name [.text text]) :=
      ⟨depth, [], .inr rfl⟩
    obtain ⟨more, later, hout⟩ := transduce_holds hholds hread
    exact ⟨text, body, rest, more, later, hs, hspelled, hbody, hout⟩
  · cases hend

/-- A text that is read as it is has only characters that stand for themselves. -/
theorem plain_of_readOn {rest : WString}
    (h : readOn (.literal []) ([], .datum depth name []) (text ++ 0x22 :: 0x0A :: rest) =
      some (.value name [.text text] :: out)) : Plain text := by
  obtain ⟨text', body, rest', more, later, hs, hspelled, hbody, hout⟩ :=
    readOn_literal (by simp) h
  cases hout
  rcases hspelled with ⟨-, hplain⟩ | hlt
  · exact hplain
  · -- the spelling is longer than the text, so the line end would be in it
    exfalso
    rcases List.append_eq_append_iff.mp hs with ⟨front, rfl, hrest⟩ | ⟨front, rfl, -⟩
    · rcases front with _ | ⟨a, _ | ⟨b, front⟩⟩
      · simp at hlt
      · exact absurd (List.cons.inj (List.cons.inj hrest).2).1 (by decide)
      · obtain ⟨rfl, -⟩ := List.cons.inj (List.cons.inj hrest).2
        exact hbody (by simp)
    · rw [List.length_append] at hlt
      omega

theorem readOn_cut_ne {cut : WString} (hcut : cut <+: text) (hne : cut ≠ text) :
    readOn (.literal []) ([], .datum depth name []) (cut ++ [0x0A]) ≠
      some (.value name [.text text] :: out) := by
  intro h
  have hlength : cut.length < text.length :=
    Nat.lt_of_le_of_ne hcut.length_le fun heq => hne (hcut.eq_of_length heq)
  obtain ⟨text', body, rest, more, later, hs, hspelled, -, hout⟩ := readOn_literal (by simp) h
  cases hout
  have hle := hspelled.length_le
  have hcount := congrArg List.length hs
  simp only [List.length_append, List.length_cons, List.length_nil] at hcount
  omega

/-! ## Lines of values -/

/-- A value up to its text: `VALUE "name", L"`. -/
def valueHead (name : WString) : WString :=
  wide "VALUE \"" ++ name ++ wide "\", L\""

/-- `VALUE "name", L"text"`. -/
def valueLine (name text : WString) : WString :=
  valueHead name ++ (text ++ [0x22, 0x0A])

theorem transduce_valueHead (h : Plain name) :
    transduce lexStep .lineStart (valueHead name) =
      some (.literal [], [.word (wide "VALUE"), .literal name, .comma]) := by
  have hword : transduce lexStep .lineStart (wide "VALUE \"") =
      some (.literal [], [.word (wide "VALUE")]) := by decide
  have hend : transduce lexStep (.literal name) (wide "\", L\"") =
      some (.literal [], [.literal name, .comma]) := rfl
  unfold valueHead
  rw [List.append_assoc, transduce_append_of hword, transduce_append_of (transduce_plain h []),
    List.nil_append, hend]
  rfl

theorem readOn_valueHead (h : Plain name) (rest : WString) :
    readOn .lineStart ([], .body depth) (valueHead name ++ rest) =
      readOn (.literal []) ([], .datum depth name []) rest :=
  readOn_silent (transduce_valueHead h) rfl rest

/-- A text of characters that stand for themselves is read to the end of its line. -/
theorem readOn_text (h : Plain text) (rest : WString) :
    readOn (.literal []) ([], .datum depth name []) (text ++ 0x22 :: 0x0A :: rest) =
      readOn .lineStart ([], .data depth name [.text text]) rest := by
  have hlex : transduce lexStep (.literal []) (text ++ [0x22, 0x0A]) =
      some (.lineStart, [.literal text]) := by
    rw [transduce_append_of (transduce_plain h [])]
    rfl
  have hread := readOn_silent hlex (r := ([], .datum depth name [])) rfl rest
  rwa [List.append_assoc] at hread

/-- A script goes on with a word. -/
def BeginsWithWord (s : WString) : Prop :=
  ∃ front rest mode keyword, s = front ++ rest ∧
    transduce lexStep .lineStart front = some (mode, [.word keyword])

theorem beginsWithWord_valueHead (name rest : WString) :
    BeginsWithWord (valueHead name ++ rest) := by
  have hword : transduce lexStep .lineStart (wide "VALUE ") =
      some (.between, [.word (wide "VALUE")]) := by decide
  refine ⟨wide "VALUE ", 0x22 :: (name ++ (wide "\", L\"" ++ rest)), _, _, ?_, hword⟩
  unfold valueHead
  rw [List.append_assoc, List.append_assoc]
  rfl

theorem readOn_data (h : BeginsWithWord s) :
    readOn .lineStart ([], .data depth name data) s =
      (readOn .lineStart ([], .body depth) s).map (.value name data :: ·) := by
  obtain ⟨front, rest, mode, keyword, rfl, hlex⟩ := h
  have hstep : readStep ([], .data depth name data) (.word keyword) =
      (readStep ([], .body depth) (.word keyword)).map (emit [.value name data]) := by
    change ((bodyStep depth (.word keyword)).map (emit [.value name data])).map _ =
      ((bodyStep depth (.word keyword)).map _).map _
    rw [Option.map_map, Option.map_map]
    rfl
  unfold readOn stages
  dsimp only
  rw [transduce_append_of hlex]
  cases transduce lexStep mode rest with
  | none => rfl
  | some q =>
      have hread := transduce_cons_map hstep q.2
      change ((transduce readStep _ (.word keyword :: q.2)).map _).bind _ =
        (((transduce readStep _ (.word keyword :: q.2)).map _).bind _).map _
      rw [hread]
      cases transduce readStep ([], .body depth) (.word keyword :: q.2) with
      | none => rfl
      | some q' =>
          change (if q'.1 = ([], Place.outside) then some (Statement.value name data :: q'.2)
            else none) = Option.map _ (if q'.1 = ([], Place.outside) then some q'.2 else none)
          split <;> rfl

/-- A line is read as its value exactly if every character of the text stands for itself. -/
theorem readOn_valueLine_iff {rest : WString} (hname : Plain name)
    (hrest : BeginsWithWord rest) :
    readOn .lineStart ([], .body depth) (valueLine name text ++ rest) =
        some (.value name [.text text] :: out) ↔
      Plain text ∧ readOn .lineStart ([], .body depth) rest = some out := by
  unfold valueLine
  rw [List.append_assoc, readOn_valueHead hname, List.append_assoc]
  change readOn _ _ (text ++ 0x22 :: 0x0A :: rest) = _ ↔ _
  constructor
  · intro h
    have hplain := plain_of_readOn h
    rw [readOn_text hplain, readOn_data hrest, Option.map_eq_some_iff] at h
    obtain ⟨out', hout, heq⟩ := h
    rw [← (List.cons.inj heq).2]
    exact ⟨hplain, hout⟩
  · rintro ⟨hplain, hout⟩
    rw [readOn_text hplain, readOn_data hrest, hout]
    rfl

end Baulk.Resource
