import Baulk.Core.Characters

/-!
# Names and wildcards

`baulk search` asks `bela::FnMatch` which packages a pattern names.  The matcher
goes through both texts character by character.  Where it reads behind a text
the model has no result.
-/

namespace Baulk

/-! ## One character -/

/-- `RuneNext`.  A surrogate is taken with the unit behind it, whatever that is;
the sources read behind the view if there is none. -/
def runeNext : WString → Option (UInt32 × WString)
  | [] => some (0, [])
  | c :: s =>
      if ¬ (0xD800 ≤ c ∧ c ≤ 0xDFFF) then some (c.toUInt32, s)
      else
        match s with
        | [] => none
        | d :: rest => some (surrogateRune c d, rest)

namespace FnMatch

/-! ## The flags -/

def noEscape : UInt32 := 0x1
def pathName : UInt32 := 0x2
def period : UInt32 := 0x4
def leadingDir : UInt32 := 0x8
def caseFold : UInt32 := 0x10

/-- `(flags & flag) != 0`. -/
def has (flags flag : UInt32) : Bool :=
  flags &&& flag != 0

/-! ## Brackets -/

section

-- `bela::unicode::ToLower`
variable (toLower : UInt32 → UInt32)

/-- The case of a character is left as it is without `CaseFold`. -/
def fold (flags rune : UInt32) : UInt32 :=
  if has flags caseFold then toLower rune else rune

/-- How `rangematch` leaves its first loop. -/
inductive RangeExit where
  /-- The whole function returns `false`. -/
  | fails
  | leaves (matched : Bool) (pattern : WString)
  deriving DecidableEq

/-- The character behind a backslash.  At least `room` units have to be left. -/
def unescape (flags c : UInt32) (room : Nat) (pattern : WString) :
    Option (Option (UInt32 × WString)) :=
  if !has flags noEscape && c == 0x5C then
    if pattern.length < room then some none
    else (runeNext pattern).map some
  else some (some (c, pattern))

/-- The first loop of `rangematch`; every pass takes at least one unit. -/
def rangeLoop (flags rune : UInt32) : Nat → Bool → WString → Option RangeExit
  | 0, matched, pattern => some (.leaves matched pattern)
  | passes + 1, matched, pattern =>
      if !matched && 1 < pattern.length && pattern.head? != some 0x5D then do
        let (c, pattern) ← runeNext pattern
        match ← unescape flags c 2 pattern with
        | none => some .fails
        | some (c, pattern) =>
            let c := fold toLower flags c
            if 1 < pattern.length && pattern.head? == some 0x2D &&
                pattern.tail.head? != some 0x5D then do
              let (c2, pattern) ← runeNext pattern.tail
              match ← unescape flags c2 1 pattern with
              | none => some .fails
              | some (c2, pattern) =>
                  let c2 := fold toLower flags c2
                  rangeLoop flags rune passes (decide (c ≤ rune ∧ rune ≤ c2)) pattern
            else rangeLoop flags rune passes (c == rune) pattern
      else some (.leaves matched pattern)

/-- The second loop of `rangematch`, which looks for the closing bracket. -/
def closeLoop : Nat → WString → Option (Bool × WString)
  | 0, pattern => some (false, pattern)
  | passes + 1, pattern =>
      if pattern.isEmpty then some (false, pattern)
      else do
        let (c, pattern) ← runeNext pattern
        if c = 0x5C ∧ ¬ pattern.isEmpty then do
          let (_, pattern) ← runeNext pattern
          closeLoop passes pattern
        else if c = 0x5D then some (true, pattern)
        else closeLoop passes pattern

/-- `rangematch`: the answer, and the pattern behind the bracket. -/
def rangeMatch (pattern : WString) (rune flags : UInt32) : Option (Bool × WString) :=
  if pattern.isEmpty then some (false, pattern)
  else do
    let rune := fold toLower flags rune
    let negate := pattern.head? == some 0x5E || pattern.head? == some 0x21
    let pattern := if negate then pattern.tail else pattern
    match ← rangeLoop toLower flags rune pattern.length false pattern with
    | .fails => some (false, pattern)
    | .leaves matched pattern =>
        let (ok, pattern) ← closeLoop pattern.length pattern
        some (ok && matched != negate, pattern)

/-! ## The matcher -/

/-- The text that is matched, and what the last character was. -/
structure Text where
  s : WString
  sAtStart : Bool := true
  sLastAtStart : Bool := true
  sLastSlash : Bool := false
  sLastUnpacked : UInt32 := 0

def Text.unpack (t : Text) : Option (UInt32 × Text) := do
  let (rune, rest) ← runeNext t.s
  some (rune,
    { s := rest, sAtStart := false, sLastAtStart := t.sAtStart
      sLastSlash := t.sLastUnpacked == 0x2F, sLastUnpacked := rune })

/-- The loop over the ends of the text in the general case of a `*`. -/
def anyRest (pathname : Bool) (found : WString → Option Bool) :
    Nat → WString → Option Bool
  | 0, _ => some false
  | passes + 1, test =>
      if test.isEmpty then some false
      else do
        if ← found test then some true
        else if pathname && test.head? == some 0x2F then some false
        else do
          let (_, test) ← runeNext test
          anyRest pathname found passes test

/-- `FnMatchInternal`; every pass takes at least one unit of the pattern. -/
def fnMatchInternal : Nat → WString → Text → UInt32 → Option Bool
  | 0, _, t, flags => some (t.s.isEmpty || has flags leadingDir && t.s.head? == some 0x2F)
  | passes + 1, pattern, t, flags =>
      let pathname := has flags pathName
      if pattern.isEmpty then
        some (t.s.isEmpty || has flags leadingDir && t.s.head? == some 0x2F)
      else do
        let (c, pattern) ← runeNext pattern
        if c = 0x3F then
          if t.s.isEmpty then some false
          else do
            let (sc, t) ← t.unpack
            if pathname && sc == 0x2F then some false
            else if has flags period && sc == 0x2E &&
                (t.sLastAtStart || pathname && t.sLastSlash) then some false
            else fnMatchInternal passes pattern t flags
        else if c = 0x2A then
          let pattern := if pattern.head? = some 0x2A then pattern.tail else pattern
          -- `s[0]` is read also where `s` is empty
          if has flags period && t.s.isEmpty then none
          else if has flags period && t.s.head? == some 0x2E &&
              (t.sAtStart || pathname && t.sLastUnpacked == 0x2F) then some false
          else if pattern.isEmpty then
            some (!pathname || has flags leadingDir || !t.s.contains 0x2F)
          else if pathname && pattern.head? == some 0x2F then
            if t.s.contains 0x2F then do
              let (_, t) ← { t with s := t.s.dropWhile (· != 0x2F) }.unpack
              fnMatchInternal passes pattern.tail t flags
            else some false
          else
            anyRest pathname
              (fun test => fnMatchInternal passes pattern { s := test } (flags &&& ~~~period))
              t.s.length t.s
        else if c = 0x5B then
          if t.s.isEmpty then some false
          else if pathname && t.s.head? == some 0x2F then some false
          else do
            let (sc, t) ← t.unpack
            let (ok, pattern) ← rangeMatch toLower pattern sc flags
            if ok then fnMatchInternal passes pattern t flags else some false
        else do
          let (c, pattern) ←
            if c = 0x5C ∧ ¬ has flags noEscape ∧ ¬ pattern.isEmpty then runeNext pattern
            else some (c, pattern)
          if t.s.isEmpty then some false
          else do
            let (sc, t) ← t.unpack
            if sc = c ∨ has flags caseFold ∧ toLower sc = toLower c then
              fnMatchInternal passes pattern t flags
            else some false

end

end FnMatch

def fnMatch (toLower : UInt32 → UInt32) (pattern text : WString) (flags : UInt32) :
    Option Bool :=
  FnMatch.fnMatchInternal toLower pattern.length pattern { s := text } flags

end Baulk
