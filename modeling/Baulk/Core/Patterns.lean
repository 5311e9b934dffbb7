import Baulk.Core.FnMatch
import Baulk.Support.Wildcard

/-!
# The language of a pattern

`FnMatch` without flags, the way `baulk search` calls it, finds the language of
its pattern: `?` is one character, `*` is any text, and a list in brackets is one
of its characters.  A bracket that is never closed finds nothing, and three `*`
or more at the end of a pattern ask for one character.
-/

namespace Baulk

/-! ## The places of a pattern -/

namespace FnMatch

open Support (Wildcard)

/-- The next character of a bracket; a backslash stands for the character behind
it. -/
def readChar : List Char → Option (Char × List Char)
  | [] => none
  | c :: p =>
      if c = '\\' then
        match p with
        | [] => none
        | d :: p => some (d, p)
      else some (c, p)

/-- A hyphen that is not the last character of a bracket. -/
def isRange : List Char → Bool
  | '-' :: d :: _ => d != ']'
  | _ => false

/-- The characters up to the closing bracket, by first and last ones, and the
pattern behind it. -/
def readSet : Nat → List Char → Option (List (Char × Char) × List Char)
  | 0, _ => none
  | _ + 1, [] => none
  | n + 1, c :: p =>
      if c = ']' then some ([], p)
      else do
        let (lo, p) ← readChar (c :: p)
        if isRange p then do
          let (hi, p) ← readChar p.tail
          let (set, p) ← readSet n p
          some ((lo, hi) :: set, p)
        else do
          let (set, p) ← readSet n p
          some ((lo, lo) :: set, p)

/-- A character is in one of the ranges. -/
def covers (set : List (Char × Char)) (c : Char) : Bool :=
  set.any fun range => decide (range.1 ≤ c ∧ c ≤ range.2)

def isNegated (p : List Char) : Bool :=
  p.head? == some '^' || p.head? == some '!'

/-- What a bracket stands for, and the pattern behind it. -/
def readBracket (p : List Char) : Option (Wildcard Char × List Char) := do
  let body := if isNegated p then p.tail else p
  let (set, rest) ← readSet body.length body
  some (.among fun c => covers set c != isNegated p, rest)

/-- The places of a pattern.  There are none if a bracket is not closed. -/
def readPattern : Nat → List Char → Option (List (Wildcard Char))
  | 0, _ => some []
  | _ + 1, [] => some []
  | n + 1, c :: p =>
      if c = '?' then do some (.among (fun _ => true) :: (← readPattern n p))
      else if c = '*' then do some (.any :: (← readPattern n p))
      else if c = '[' then do
        let (place, p) ← readBracket p
        some (place :: (← readPattern n p))
      else if c = '\\' ∧ p ≠ [] then do
        let (d, p) ← readChar (c :: p)
        some (.exactly d :: (← readPattern n p))
      else do some (.exactly c :: (← readPattern n p))

/-- The places of the whole pattern. -/
def places (p : List Char) : Option (List (Wildcard Char)) :=
  readPattern p.length p

/-! ## Characters and units -/

/-- The UTF-16 form of a text. -/
def units (p : List Char) : WString :=
  p.flatMap utf16Units

@[simp] theorem units_nil : units [] = [] := rfl

theorem units_cons (c : Char) (p : List Char) : units (c :: p) = utf16Units c ++ units p := rfl

theorem val_eq_iff (c : Char) {d : Char} {u : UInt32} (h : d.val = u) : c.val = u ↔ c = d := by
  rw [← h, Char.val_inj]

theorem utf16Units_ne_nil (c : Char) : utf16Units c ≠ [] := by
  rcases utf16Units_cases c with ⟨u, h, -⟩ | ⟨high, low, h, -⟩ <;> rw [h] <;> simp

@[simp] theorem isEmpty_units (p : List Char) : (units p).isEmpty = p.isEmpty := by
  cases p with
  | nil => rfl
  | cons c p => simp [units_cons, utf16Units_ne_nil]

theorem length_le_units (p : List Char) : p.length ≤ (units p).length := by
  induction p with
  | nil => exact Nat.le_refl 0
  | cons c p ih =>
      have hc := List.length_pos_iff.mpr (utf16Units_ne_nil c)
      rw [units_cons, List.length_append, List.length_cons]
      omega

@[simp] theorem runeNext_units (c : Char) (p : List Char) :
    runeNext (units (c :: p)) = some (c.val, units p) := by
  rw [units_cons]
  rcases utf16Units_cases c with ⟨u, h, hhigh, hlow, hrune⟩ | ⟨high, low, h, hhigh, hlow, hrune⟩
  · rw [← Bool.not_eq_true, isHighSurrogate_iff] at hhigh
    rw [← Bool.not_eq_true, isLowSurrogate_iff] at hlow
    have hplain : ¬ (0xD800 ≤ u ∧ u ≤ 0xDFFF) := by
      rw [UInt16.le_iff_toNat_le, UInt16.le_iff_toNat_le]
      change ¬ (0xD800 ≤ u.toNat ∧ u.toNat ≤ 0xDFFF)
      omega
    rw [h, List.singleton_append, runeNext.eq_def]
    dsimp only
    rw [if_pos hplain, hrune]
  · rw [isHighSurrogate_iff] at hhigh
    have hpair : 0xD800 ≤ high ∧ high ≤ 0xDFFF := by
      rw [UInt16.le_iff_toNat_le, UInt16.le_iff_toNat_le]
      change 0xD800 ≤ high.toNat ∧ high.toNat ≤ 0xDFFF
      omega
    rw [h, List.cons_append, List.singleton_append, runeNext.eq_def]
    dsimp only
    rw [if_neg (not_not.mpr hpair), hrune]

/-- The first unit of a text tells whether it begins with an ASCII character. -/
theorem head_units {a : Char} {u : WChar} (ha : utf16Units a = [u]) (hlow : u ≤ 0x7F)
    (p : List Char) : (units p).head? = some u ↔ p.head? = some a := by
  cases p with
  | nil => simp
  | cons c p =>
      have hself : u.toUInt32 = a.val := by
        rcases utf16Units_cases a with ⟨v, h, -, -, hrune⟩ | ⟨high, low, h, -⟩
        · rw [ha, List.cons.injEq] at h
          rw [h.1, hrune]
        · rw [ha] at h
          simp at h
      rw [units_cons, List.head?_cons, Option.some.injEq]
      rcases utf16Units_cases c with ⟨v, h, -, -, hrune⟩ | ⟨high, low, h, hhigh, -⟩
      · rw [h, List.singleton_append, List.head?_cons, Option.some.injEq]
        constructor
        · rintro rfl
          exact Char.ext (hrune.symm.trans hself)
        · rintro rfl
          rw [ha, List.cons.injEq] at h
          exact h.1.symm
      · rw [h, List.cons_append, List.head?_cons, Option.some.injEq]
        refine iff_of_false ?_ ?_
        · rintro rfl
          rw [isHighSurrogate_of_le hlow] at hhigh
          cases hhigh
        · rintro rfl
          rw [ha] at h
          simp at h

/-! ## The end of a bracket -/

/-- The text behind the bracket that closes. -/
def closing : List Char → Option (List Char)
  | [] => none
  | c :: p =>
      if c = ']' then some p
      else if c = '\\' then
        match p with
        | [] => none
        | _ :: p => closing p
      else closing p

theorem closing_plain {c : Char} {p : List Char} (hclose : c ≠ ']') (hescape : c ≠ '\\') :
    closing (c :: p) = closing p := by
  rw [closing.eq_def]
  dsimp only
  rw [if_neg hclose, if_neg hescape]

theorem closing_close (p : List Char) : closing (']' :: p) = some p := by
  rw [closing.eq_def]
  exact if_pos rfl

theorem closing_escape (c : Char) (p : List Char) : closing ('\\' :: c :: p) = closing p := rfl

theorem closeLoop_units {passes : Nat} {p : List Char} (h : p.length ≤ passes) :
    closeLoop passes (units p) = some ((closing p).isSome, units ((closing p).getD [])) := by
  induction passes generalizing p with
  | zero =>
      rw [List.length_eq_zero_iff.mp (Nat.le_zero.mp h)]
      rfl
  | succ passes ih =>
      cases p with
      | nil => rfl
      | cons c p =>
          have hp : p.length ≤ passes := Nat.le_of_succ_le_succ h
          rw [closeLoop, if_neg (by simp), runeNext_units]
          simp only [Option.bind_eq_bind, Option.bind_some, isEmpty_units]
          have hescaped := val_eq_iff c (d := '\\') (u := 0x5C) rfl
          have hclosed := val_eq_iff c (d := ']') (u := 0x5D) rfl
          by_cases hescape : c = '\\'
          · subst hescape
            cases p with
            | nil =>
                rw [if_neg (by simp), if_neg (by decide)]
                exact ih (p := []) (Nat.zero_le passes)
            | cons d p =>
                rw [if_pos ⟨rfl, by simp⟩, runeNext_units]
                exact ih (Nat.le_of_succ_le hp)
          · rw [if_neg fun hboth => hescape (hescaped.mp hboth.1)]
            by_cases hclose : c = ']'
            · subst hclose
              rw [if_pos (hclosed.mpr rfl), closing_close]
              rfl
            · rw [if_neg (mt hclosed.mp hclose), closing_plain hclose hescape]
              exact ih hp

theorem readChar_eq_none {c : Char} {p : List Char} (h : readChar (c :: p) = none) :
    c = '\\' ∧ p = [] := by
  by_cases hescape : c = '\\'
  · subst hescape
    cases p with
    | nil => exact ⟨rfl, rfl⟩
    | cons d p => cases h
  · rw [readChar.eq_def] at h
    dsimp only at h
    rw [if_neg hescape] at h
    cases h

theorem readChar_length {p rest : List Char} {c : Char} (h : readChar p = some (c, rest)) :
    rest.length < p.length := by
  unfold readChar at h
  split at h
  · cases h
  split at h
  · split at h
    · cases h
    · cases h
      exact Nat.lt_succ_of_lt (Nat.lt_succ_self _)
  · cases h
    exact Nat.lt_succ_self _

theorem closing_readChar {p rest : List Char} {c : Char} (hp : p.head? ≠ some ']')
    (h : readChar p = some (c, rest)) : closing p = closing rest := by
  unfold readChar at h
  split at h
  · cases h
  rename_i d p
  have hclose : d ≠ ']' := fun heq => hp (by rw [heq, List.head?_cons])
  split at h
  · rename_i hescape
    subst hescape
    split at h
    · cases h
    · cases h
      exact closing_escape _ _
  · rename_i hescape
    cases h
    exact closing_plain hclose hescape

theorem isRange_cases {p : List Char} (h : isRange p = true) :
    ∃ d rest, p = '-' :: d :: rest ∧ d ≠ ']' := by
  unfold isRange at h
  split at h
  · exact ⟨_, _, rfl, by simpa using h⟩
  · cases h

theorem closing_eq_readSet {n : Nat} {p : List Char} (h : p.length ≤ n) :
    closing p = (readSet n p).map Prod.snd := by
  induction n generalizing p with
  | zero =>
      rw [List.length_eq_zero_iff.mp (Nat.le_zero.mp h)]
      rfl
  | succ n ih =>
      cases p with
      | nil => rfl
      | cons c p =>
          rw [readSet]
          by_cases hclose : c = ']'
          · subst hclose
            rw [if_pos rfl, closing_close]
            rfl
          · rw [if_neg hclose]
            have hhead : (c :: p).head? ≠ some ']' := by simpa using hclose
            cases hlo : readChar (c :: p) with
            | none =>
                obtain ⟨rfl, rfl⟩ := readChar_eq_none hlo
                rfl
            | some next =>
                obtain ⟨lo, rest⟩ := next
                have hshort := readChar_length hlo
                rw [closing_readChar hhead hlo]
                simp only [Option.bind_eq_bind, Option.bind_some]
                by_cases hrange : isRange rest = true
                · obtain ⟨d, rest, rfl, hd⟩ := isRange_cases hrange
                  rw [if_pos hrange, closing_plain (by decide) (by decide), List.tail_cons]
                  cases hhi : readChar (d :: rest) with
                  | none =>
                      obtain ⟨rfl, rfl⟩ := readChar_eq_none hhi
                      rfl
                  | some next =>
                      obtain ⟨hi, rest'⟩ := next
                      have hshort' := readChar_length hhi
                      rw [closing_readChar (by simpa using hd) hhi, ih (by simp at *; omega)]
                      simp only [Option.bind_some]
                      cases readSet n rest' <;> rfl
                · rw [if_neg hrange, ih (by simp at *; omega)]
                  cases readSet n rest <;> rfl

/-! ## The characters of a bracket -/

@[simp] theorem has_zero (flag : UInt32) : has 0 flag = false := by
  simp [has]

@[simp] theorem fold_zero (toLower : UInt32 → UInt32) (rune : UInt32) :
    fold toLower 0 rune = rune := by
  simp [fold]

/-- A character of a bracket is read, or the bracket is not closed. -/
theorem unescape_units (c : Char) (p : List Char) (room : Nat) (hone : 1 ≤ room)
    (htwo : room ≤ 2) :
    unescape 0 c.val room (units p) = some none ∧ closing (c :: p) = none ∨
      ∃ lo rest, unescape 0 c.val room (units p) = some (some (lo.val, units rest)) ∧
        readChar (c :: p) = some (lo, rest) := by
  have hescaped := val_eq_iff c (d := '\\') (u := 0x5C) rfl
  unfold unescape
  by_cases hescape : c = '\\'
  · subst hescape
    rw [if_pos (by simp)]
    by_cases hshort : (units p).length < room
    · rw [if_pos hshort]
      refine .inl ⟨rfl, ?_⟩
      have hlength := length_le_units p
      rcases p with _ | ⟨d, _ | ⟨e, p⟩⟩
      · rfl
      · rfl
      · simp only [List.length_cons] at hlength
        omega
    · rw [if_neg hshort]
      cases p with
      | nil => exact absurd hone (by simpa using hshort)
      | cons d p =>
          rw [runeNext_units]
          exact .inr ⟨d, p, rfl, rfl⟩
  · rw [if_neg (by simpa [hescaped] using hescape)]
    refine .inr ⟨c, p, rfl, ?_⟩
    rw [readChar.eq_def]
    exact if_neg hescape

theorem isRange_units (p : List Char) :
    (decide (1 < (units p).length) && (units p).head? == some 0x2D &&
      (units p).tail.head? != some 0x5D) = isRange p := by
  have hhyphen := head_units (a := '-') (u := 0x2D) (by decide) (by decide) p
  rw [Bool.eq_iff_iff, Bool.and_eq_true, Bool.and_eq_true, decide_eq_true_iff, beq_iff_eq,
    bne_iff_ne, hhyphen]
  rcases p with _ | ⟨c, p⟩
  · simp [isRange]
  by_cases hc : c = '-'
  · subst hc
    have hunits : units ('-' :: p) = 0x2D :: units p := rfl
    rw [hunits, List.length_cons, List.tail_cons]
    rcases p with _ | ⟨d, p⟩
    · simp [isRange]
    · have hclose := head_units (a := ']') (u := 0x5D) (by decide) (by decide) (d :: p)
      have hlength := length_le_units (d :: p)
      have hlong : 1 < (units (d :: p)).length + 1 := by
        rw [List.length_cons] at hlength
        omega
      rw [Ne, hclose]
      simp [isRange, hlong]
  · refine iff_of_false (fun h => hc (Option.some.inj h.1.2)) ?_
    intro h
    obtain ⟨d, rest, heq, -⟩ := isRange_cases h
    exact hc (List.cons.inj heq).1

theorem readSet_range {n : Nat} {c lo hi : Char} {p rest rest' : List Char} (hc : c ≠ ']')
    (hlo : readChar (c :: p) = some (lo, rest)) (hrange : isRange rest = true)
    (hhi : readChar rest.tail = some (hi, rest')) :
    readSet (n + 1) (c :: p) = (readSet n rest').map fun r => ((lo, hi) :: r.1, r.2) := by
  rw [readSet, if_neg hc, hlo]
  simp only [Option.bind_eq_bind, Option.bind_some, hrange, if_true, hhi]
  cases readSet n rest' <;> rfl

theorem readSet_single {n : Nat} {c lo : Char} {p rest : List Char} (hc : c ≠ ']')
    (hlo : readChar (c :: p) = some (lo, rest)) (hrange : isRange rest ≠ true) :
    readSet (n + 1) (c :: p) = (readSet n rest).map fun r => ((lo, lo) :: r.1, r.2) := by
  rw [readSet, if_neg hc, hlo]
  simp only [Option.bind_eq_bind, Option.bind_some, if_neg hrange]
  cases readSet n rest <;> rfl

/-- What the first loop knows when it ends: the pattern it leaves is closed where the whole
one is, and if that is closed the answer is known. -/
def Ranged (n : Nat) (rune : Char) (matched : Bool) (p : List Char) : Option RangeExit → Prop
  | some .fails => closing p = none
  | some (.leaves m pattern) => ∃ q, pattern = units q ∧ closing q = closing p ∧
      ∀ set rest, readSet n p = some (set, rest) → m = (matched || covers set rune)
  | none => False

theorem covers_cons (range : Char × Char) (set : List (Char × Char)) (c : Char) :
    covers (range :: set) c = (decide (range.1 ≤ c ∧ c ≤ range.2) || covers set c) := rfl

theorem Ranged.step {n : Nat} {rune : Char} {matched : Bool} {p rest : List Char}
    {range : Char × Char} {exit : Option RangeExit} (hclosing : closing p = closing rest)
    (hset : readSet (n + 1) p = (readSet n rest).map fun r => (range :: r.1, r.2))
    (hmatched : matched = decide (range.1 ≤ rune ∧ rune ≤ range.2))
    (h : Ranged n rune matched rest exit) : Ranged (n + 1) rune false p exit := by
  rcases exit with _ | _ | ⟨m, pattern⟩
  · exact h
  · exact hclosing.trans h
  · obtain ⟨q, hq, hqclosing, hanswer⟩ := h
    refine ⟨q, hq, hqclosing.trans hclosing.symm, ?_⟩
    intro set rest' hread
    rw [hset] at hread
    obtain ⟨⟨set', tail⟩, hread', heq⟩ := Option.map_eq_some_iff.mp hread
    cases heq
    rw [hanswer set' _ hread', covers_cons, hmatched, Bool.false_or]

theorem rangeLoop_units (toLower : UInt32 → UInt32) (rune : Char) {n passes : Nat} {p : List Char}
    (hn : p.length ≤ n) (hp : p.length ≤ passes) (matched : Bool) :
    Ranged n rune matched p (rangeLoop toLower 0 rune.val passes matched (units p)) := by
  induction n generalizing passes p matched with
  | zero =>
      obtain rfl := List.length_eq_zero_iff.mp (Nat.le_zero.mp hn)
      cases passes with
      | zero => exact ⟨[], rfl, rfl, nofun⟩
      | succ passes =>
          rw [rangeLoop, if_neg (by simp)]
          exact ⟨[], rfl, rfl, nofun⟩
  | succ n ih =>
      cases passes with
      | zero =>
          obtain rfl := List.length_eq_zero_iff.mp (Nat.le_zero.mp hp)
          exact ⟨[], rfl, rfl, nofun⟩
      | succ passes =>
          have hclose := head_units (a := ']') (u := 0x5D) (by decide) (by decide) p
          rw [rangeLoop]
          split
          · rename_i hguard
            simp only [Bool.and_eq_true, Bool.not_eq_true', decide_eq_true_iff, bne_iff_ne, ne_eq,
              hclose] at hguard
            obtain ⟨⟨rfl, hlong⟩, hhead⟩ := hguard
            rcases p with _ | ⟨c, p⟩
            · simp at hlong
            have hc : c ≠ ']' := by simpa using hhead
            have hpn : p.length ≤ n := Nat.le_of_succ_le_succ hn
            have hpp : p.length ≤ passes := Nat.le_of_succ_le_succ hp
            rw [runeNext_units]
            simp only [Option.bind_eq_bind, Option.bind_some, fold_zero]
            rcases unescape_units c p 2 (by decide) (by decide) with
              ⟨hnone, hopen⟩ | ⟨lo, rest, hsome, hlo⟩
            · rw [hnone]
              exact hopen
            · rw [hsome]
              simp only [Option.bind_some, isRange_units]
              have hshort := readChar_length hlo
              have hclosing := closing_readChar hhead hlo
              split
              · rename_i hrange
                obtain ⟨d, tail, rfl, hd⟩ := isRange_cases hrange
                have hunits : (units ('-' :: d :: tail)).tail = units (d :: tail) := rfl
                rw [hunits, runeNext_units]
                simp only [Option.bind_some]
                have hbody : closing (c :: p) = closing (d :: tail) :=
                  hclosing.trans (closing_plain (by decide) (by decide))
                rcases unescape_units d tail 1 (by decide) (by decide) with
                  ⟨hnone, hopen⟩ | ⟨hi, rest', hsome', hhi⟩
                · rw [hnone]
                  exact hbody.trans hopen
                · rw [hsome']
                  simp only [Option.bind_some]
                  have hshort' := readChar_length hhi
                  simp only [List.length_cons] at hshort hshort'
                  have hclosing' := closing_readChar (by simpa using hd) hhi
                  exact Ranged.step (hbody.trans hclosing')
                    (readSet_range hc hlo hrange hhi) rfl (ih (by omega) (by omega) _)
              · rename_i hrange
                simp only [List.length_cons] at hshort
                refine Ranged.step hclosing (readSet_single hc hlo hrange) ?_
                  (ih (by omega) (by omega) _)
                rw [Bool.eq_iff_iff, beq_iff_eq, decide_eq_true_iff, Char.val_inj]
                exact ⟨fun h => h ▸ ⟨Char.le_refl _, Char.le_refl _⟩,
                  fun h => Char.le_antisymm h.1 h.2⟩
          · rename_i hguard
            refine ⟨p, rfl, rfl, ?_⟩
            intro set rest hread
            cases matched with
            | true => rfl
            | false =>
                -- the bracket closes here, as one character that is no bracket does not end it
                rcases p with _ | ⟨c, p⟩
                · cases hread
                by_cases hc : c = ']'
                · subst hc
                  rw [readSet, if_pos rfl] at hread
                  cases hread
                  rfl
                · have hshort : (units (c :: p)).length ≤ 1 := by
                    by_contra hlong
                    refine hguard ?_
                    simp only [Bool.and_eq_true, Bool.not_eq_true', decide_eq_true_iff, bne_iff_ne,
                      ne_eq, hclose]
                    exact ⟨⟨trivial, Nat.lt_of_not_le hlong⟩, by simpa using hc⟩
                  have hlength := length_le_units (c :: p)
                  obtain rfl : p = [] := by
                    rw [List.length_cons] at hlength
                    exact List.length_eq_zero_iff.mp (by omega)
                  have hopen : closing [c] = none := by
                    rw [closing.eq_def]
                    dsimp only
                    rw [if_neg hc]
                    split <;> rfl
                  rw [closing_eq_readSet hn, hread] at hopen
                  cases hopen

theorem isNegated_units (p : List Char) :
    ((units p).head? == some 0x5E || (units p).head? == some 0x21) = isNegated p := by
  have hcaret := head_units (a := '^') (u := 0x5E) (by decide) (by decide) p
  have hbang := head_units (a := '!') (u := 0x21) (by decide) (by decide) p
  rw [isNegated, Bool.eq_iff_iff, Bool.or_eq_true, Bool.or_eq_true, beq_iff_eq, beq_iff_eq,
    beq_iff_eq, beq_iff_eq, hcaret, hbang]

theorem units_tail {p : List Char} (h : isNegated p = true) : (units p).tail = units p.tail := by
  rcases p with _ | ⟨c, p⟩
  · rfl
  · rw [isNegated, List.head?_cons, Bool.or_eq_true, beq_iff_eq, beq_iff_eq, Option.some.injEq,
      Option.some.injEq] at h
    rcases h with rfl | rfl <;> rfl

/-- A bracket finds one of its characters, or one that is not of them; one that is not closed
finds none. -/
theorem rangeMatch_units (toLower : UInt32 → UInt32) (rune : Char) (p : List Char) :
    ∃ b rest, rangeMatch toLower (units p) rune.val 0 = some (b, units rest) ∧
      (readBracket p = none ∧ b = false ∨
        ∃ inside, readBracket p = some (.among inside, rest) ∧ b = inside rune) := by
  unfold rangeMatch readBracket
  by_cases hempty : p = []
  · subst hempty
    exact ⟨false, [], rfl, .inl ⟨rfl, rfl⟩⟩
  have hbody : (if isNegated p then (units p).tail else units p) =
      units (if isNegated p then p.tail else p) := by
    split
    · rename_i hneg
      exact units_tail hneg
    · rfl
  rw [if_neg (by simpa using hempty), isNegated_units]
  dsimp only
  rw [hbody]
  generalize (if isNegated p then p.tail else p) = body
  have hranged := rangeLoop_units toLower rune (n := body.length) (Nat.le_refl _)
    (length_le_units body) false
  have hclosing := closing_eq_readSet (Nat.le_refl body.length)
  simp only [fold_zero, Option.bind_eq_bind]
  generalize rangeLoop toLower 0 rune.val (units body).length false (units body) = exit at hranged
  rcases exit with _ | _ | ⟨m, pattern⟩
  · exact hranged.elim
  · have hread : readSet body.length body = none :=
      Option.map_eq_none_iff.mp (hclosing.symm.trans hranged)
    exact ⟨false, body, rfl, .inl ⟨by rw [hread]; rfl, rfl⟩⟩
  · obtain ⟨q, rfl, hq, hanswer⟩ := hranged
    simp only [Option.bind_some, closeLoop_units (length_le_units q)]
    rw [hq, hclosing]
    cases hread : readSet body.length body with
    | none => exact ⟨false, _, rfl, .inl ⟨rfl, rfl⟩⟩
    | some found =>
        obtain ⟨set, rest⟩ := found
        refine ⟨_, rest, rfl, .inr ⟨_, rfl, ?_⟩⟩
        rw [hanswer set rest hread]
        rfl

/-! ## The matcher -/

/-- An answer is given, and it is right. -/
def Answers (answer : Option Bool) (q : Prop) : Prop :=
  ∃ b, answer = some b ∧ (b = true ↔ q)

theorem anyRest_units {found : WString → Option Bool} {q : List Char → Prop} {passes : Nat}
    {t : List Char} (hpasses : t.length ≤ passes)
    (h : ∀ v, Answers (found (units v)) (q v)) :
    Answers (anyRest false found passes (units t)) (∃ v, v ≠ [] ∧ v <:+ t ∧ q v) := by
  induction passes generalizing t with
  | zero =>
      obtain rfl := List.length_eq_zero_iff.mp (Nat.le_zero.mp hpasses)
      refine ⟨false, rfl, iff_of_false Bool.false_ne_true ?_⟩
      rintro ⟨v, hv, hsuffix, -⟩
      exact hv (List.suffix_nil.mp hsuffix)
  | succ passes ih =>
      cases t with
      | nil =>
          refine ⟨false, rfl, iff_of_false Bool.false_ne_true ?_⟩
          rintro ⟨v, hv, hsuffix, -⟩
          exact hv (List.suffix_nil.mp hsuffix)
      | cons c t =>
          obtain ⟨b, hb, hiff⟩ := h (c :: t)
          obtain ⟨b', hb', hiff'⟩ := ih (Nat.le_of_succ_le_succ hpasses)
          rw [anyRest, if_neg (by simp), hb]
          simp only [Option.bind_eq_bind, Option.bind_some, Bool.false_and, Bool.false_eq_true,
            if_false, runeNext_units, hb']
          cases b with
          | true =>
              exact ⟨true, rfl, iff_of_true rfl
                ⟨c :: t, List.cons_ne_nil c t, List.suffix_rfl, hiff.mp rfl⟩⟩
          | false =>
              refine ⟨b', rfl, hiff'.trans ⟨?_, ?_⟩⟩
              · rintro ⟨v, hv, hsuffix, hfound⟩
                exact ⟨v, hv, hsuffix.trans (List.suffix_cons c t), hfound⟩
              · rintro ⟨v, hv, hsuffix, hfound⟩
                rcases List.suffix_cons_iff.mp hsuffix with rfl | hsuffix
                · exact absurd (hiff.mpr hfound) Bool.false_ne_true
                · exact ⟨v, hv, hsuffix, hfound⟩

theorem searched_any {qs : List (Wildcard Char)} {t : List Char}
    (h : qs.head? ≠ some .any) :
    Wildcard.Searched (.any :: qs) t ↔
      qs = [] ∨ ∃ v, v ≠ [] ∧ v <:+ t ∧ Wildcard.Searched qs v := by
  rcases qs with _ | ⟨_ | _, qs⟩
  · rfl
  · rfl
  · exact absurd rfl h

/-- Only a `*` is a place for any text. -/
theorem readPattern_any {n : Nat} {c : Char} {p : List Char} {qs : List (Wildcard Char)}
    (hc : c ≠ '*') (h : readPattern (n + 1) (c :: p) = some qs) : qs.head? ≠ some .any := by
  rw [readPattern] at h
  simp only [if_neg hc, Option.bind_eq_bind] at h
  split at h
  · obtain ⟨qs', -, heq⟩ := Option.bind_eq_some_iff.mp h
    cases heq
    simp
  split at h
  · obtain ⟨⟨place, rest⟩, hplace, h⟩ := Option.bind_eq_some_iff.mp h
    obtain ⟨qs', -, heq⟩ := Option.bind_eq_some_iff.mp h
    cases heq
    unfold readBracket at hplace
    simp only [Option.bind_eq_bind] at hplace
    obtain ⟨_, -, heq⟩ := Option.bind_eq_some_iff.mp hplace
    cases heq
    simp
  split at h
  · obtain ⟨_, -, h⟩ := Option.bind_eq_some_iff.mp h
    obtain ⟨qs', -, heq⟩ := Option.bind_eq_some_iff.mp h
    cases heq
    simp [Wildcard.exactly]
  · obtain ⟨qs', -, heq⟩ := Option.bind_eq_some_iff.mp h
    cases heq
    simp [Wildcard.exactly]

theorem exists_cons_iff {place : Wildcard Char} {found : Option (List (Wildcard Char))}
    {t : List Char} :
    (∃ qs, (found.bind fun qs => some (place :: qs)) = some qs ∧ Wildcard.Searched qs t) ↔
      ∃ qs, found = some qs ∧ Wildcard.Searched (place :: qs) t := by
  constructor
  · rintro ⟨qs, h, hsearched⟩
    obtain ⟨qs', hfound, heq⟩ := Option.bind_eq_some_iff.mp h
    cases heq
    exact ⟨qs', hfound, hsearched⟩
  · rintro ⟨qs, rfl, hsearched⟩
    exact ⟨_, rfl, hsearched⟩

/-- One character of the text for one place of the pattern. -/
theorem searched_among {p : Char → Bool} {c : Char} {t : List Char}
    {qs : List (Wildcard Char)} :
    Wildcard.Searched (.among p :: qs) (c :: t) ↔ p c = true ∧ Wildcard.Searched qs t := by
  constructor
  · rintro ⟨a, rest, heq, ha, hsearched⟩
    cases heq
    exact ⟨ha, hsearched⟩
  · rintro ⟨hc, hsearched⟩
    exact ⟨c, t, rfl, hc, hsearched⟩

theorem not_searched_among_nil {p : Char → Bool} {qs : List (Wildcard Char)} :
    ¬ Wildcard.Searched (.among p :: qs) [] := by
  rintro ⟨a, rest, heq, -⟩
  cases heq

/-- The answer for a place of one character: that of the rest, if the character is right. -/
theorem answers_among {p : Char → Bool} {found : Option (List (Wildcard Char))} {c : Char}
    {t : List Char} {answer : Option Bool} (hc : p c = true)
    (h : Answers answer (∃ qs, found = some qs ∧ Wildcard.Searched qs t)) :
    Answers answer (∃ qs, (found.bind fun qs => some (.among p :: qs)) = some qs ∧
      Wildcard.Searched qs (c :: t)) := by
  obtain ⟨b, hb, hiff⟩ := h
  refine ⟨b, hb, hiff.trans ?_⟩
  simp only [exists_cons_iff, searched_among, hc, true_and]

theorem answers_wrong {p : Char → Bool} {found : Option (List (Wildcard Char))} {c : Char}
    {t : List Char} (hc : p c = false) :
    Answers (some false) (∃ qs, (found.bind fun qs => some (.among p :: qs)) = some qs ∧
      Wildcard.Searched qs (c :: t)) := by
  refine ⟨false, rfl, ?_⟩
  simp [exists_cons_iff, searched_among, hc]

theorem answers_false {q : Prop} (h : ¬ q) : Answers (some false) q :=
  ⟨false, rfl, iff_of_false Bool.false_ne_true h⟩

theorem not_searched_nil {p : Char → Bool} {found : Option (List (Wildcard Char))} :
    ¬ ∃ qs, (found.bind fun qs => some (.among p :: qs)) = some qs ∧
      Wildcard.Searched qs [] := by
  rw [exists_cons_iff]
  rintro ⟨qs, -, hsearched⟩
  exact not_searched_among_nil hsearched

theorem unpack_units {text : Text} {c : Char} {t : List Char} (h : text.s = units (c :: t)) :
    ∃ text', text.unpack = some (c.val, text') ∧ text'.s = units t := by
  rw [Text.unpack, h, runeNext_units]
  exact ⟨_, rfl, rfl⟩

theorem answers_one {reads : Option (List (Wildcard Char))} {next : UInt32 × Text → Option Bool}
    {t : List Char} {text : Text} (htext : text.s = units t)
    (hnil : ¬ ∃ qs, reads = some qs ∧ Wildcard.Searched qs [])
    (hnext : ∀ c t' text', text'.s = units t' →
      Answers (next (c.val, text')) (∃ qs, reads = some qs ∧ Wildcard.Searched qs (c :: t'))) :
    Answers (if text.s.isEmpty then some false else text.unpack.bind next)
      (∃ qs, reads = some qs ∧ Wildcard.Searched qs t) := by
  rw [htext, isEmpty_units]
  rcases t with _ | ⟨c, t⟩
  · exact answers_false hnil
  · obtain ⟨text', hunpack, htext'⟩ := unpack_units htext
    rw [if_neg (by simp), hunpack]
    exact hnext c t text' htext'

/-! ### The passes -/

section

variable (toLower : UInt32 → UInt32) (passes : Nat) (p : List Char) (text : Text)

theorem fnMatchInternal_nil : fnMatchInternal toLower passes [] text 0 = some text.s.isEmpty := by
  cases passes <;> simp [fnMatchInternal]

theorem fnMatchInternal_question : fnMatchInternal toLower (passes + 1) (units ('?' :: p)) text 0 =
    if text.s.isEmpty then some false
    else text.unpack.bind fun r => fnMatchInternal toLower passes (units p) r.2 0 := by
  rw [fnMatchInternal, if_neg (by simp), runeNext_units]
  simp only [has_zero, Bool.false_and, Option.bind_eq_bind, Option.bind_some]
  rw [if_pos (by rfl)]
  simp

theorem fnMatchInternal_star : fnMatchInternal toLower (passes + 1) (units ('*' :: p)) text 0 =
    if (if p.head? = some '*' then p.tail else p) = [] then some true
    else anyRest false
      (fun test => fnMatchInternal toLower passes
        (units (if p.head? = some '*' then p.tail else p)) { s := test } 0)
      text.s.length text.s := by
  have hstar := head_units (a := '*') (u := 0x2A) (by decide) (by decide) p
  have hbody : (if (units p).head? = some 0x2A then (units p).tail else units p) =
      units (if p.head? = some '*' then p.tail else p) := by
    by_cases h : p.head? = some '*'
    · obtain ⟨rest, rfl⟩ := List.head?_eq_some_iff.mp h
      rw [if_pos (hstar.mpr h), if_pos h]
      rfl
    · rw [if_neg (mt hstar.mp h), if_neg h]
  rw [fnMatchInternal, if_neg (by simp), runeNext_units]
  simp only [has_zero, Bool.false_and, Option.bind_eq_bind, Option.bind_some]
  rw [if_neg (by decide), if_pos (by rfl), hbody]
  simp

theorem fnMatchInternal_bracket : fnMatchInternal toLower (passes + 1) (units ('[' :: p)) text 0 =
    if text.s.isEmpty then some false
    else text.unpack.bind fun r => (rangeMatch toLower (units p) r.1 0).bind fun m =>
      if m.1 then fnMatchInternal toLower passes m.2 r.2 0 else some false := by
  rw [fnMatchInternal, if_neg (by simp), runeNext_units]
  simp only [has_zero, Bool.false_and, Option.bind_eq_bind, Option.bind_some]
  rw [if_neg (by decide), if_neg (by decide), if_pos (by rfl)]
  simp

/-- The character that stands in the text for one of the pattern, and the pattern behind it. -/
def plain (c : Char) (p : List Char) : Char × List Char :=
  if c = '\\' then
    match p with
    | [] => (c, p)
    | d :: p => (d, p)
  else (c, p)

theorem fnMatchInternal_plain {c : Char} (h : c ≠ '?' ∧ c ≠ '*' ∧ c ≠ '[') :
    fnMatchInternal toLower (passes + 1) (units (c :: p)) text 0 =
      if text.s.isEmpty then some false
      else text.unpack.bind fun r =>
        if r.1 = (plain c p).1.val then
          fnMatchInternal toLower passes (units (plain c p).2) r.2 0
        else some false := by
  have hescaped := val_eq_iff c (d := '\\') (u := 0x5C) rfl
  rw [fnMatchInternal, if_neg (by simp), runeNext_units]
  simp only [Option.bind_eq_bind, Option.bind_some]
  rw [if_neg (mt (val_eq_iff c (d := '?') (u := 0x3F) rfl).mp h.1),
    if_neg (mt (val_eq_iff c (d := '*') (u := 0x2A) rfl).mp h.2.1),
    if_neg (mt (val_eq_iff c (d := '[') (u := 0x5B) rfl).mp h.2.2)]
  unfold plain
  by_cases hc : c = '\\'
  · rcases p with _ | ⟨d, p⟩ <;> simp [hc]
  · simp [hc, hescaped]

theorem readPattern_plain {n : Nat} {c : Char} (h : c ≠ '?' ∧ c ≠ '*' ∧ c ≠ '[') :
    readPattern (n + 1) (c :: p) = (readPattern n (plain c p).2).bind fun qs =>
      some (.exactly (plain c p).1 :: qs) := by
  rw [readPattern, if_neg h.1, if_neg h.2.1, if_neg h.2.2]
  unfold plain
  by_cases hc : c = '\\'
  · rcases p with _ | ⟨d, p⟩
    · simp [hc]
    · simp [hc, readChar]
  · simp [hc]

end

theorem plain_length (c : Char) (p : List Char) : (plain c p).2.length ≤ p.length := by
  unfold plain
  split
  · split
    · exact Nat.le_refl _
    · exact Nat.le_succ _
  · exact Nat.le_refl _

theorem readPattern_nil (n : Nat) : readPattern n [] = some [] := by
  cases n <;> rfl

theorem readPattern_eq_nil_iff {n : Nat} {p : List Char} (h : p.length ≤ n) :
    readPattern n p = some [] ↔ p = [] := by
  constructor
  · intro hread
    rcases p with _ | ⟨c, p⟩
    · rfl
    rcases n with _ | n
    · simp at h
    rw [readPattern] at hread
    simp only [Option.bind_eq_bind] at hread
    split at hread
    · simp [Option.bind_eq_some_iff] at hread
    split at hread
    · simp [Option.bind_eq_some_iff] at hread
    split at hread
    · simp [Option.bind_eq_some_iff] at hread
    split at hread
    · simp [Option.bind_eq_some_iff] at hread
    · simp [Option.bind_eq_some_iff] at hread
  · rintro rfl
    exact readPattern_nil n

/-- The rest of a pattern behind a `*` is looked for in the nonempty ends, if there is one. -/
theorem exists_rest_iff {found : Option (List (Wildcard Char))} {p t : List Char}
    (hnil : found = some [] ↔ p = []) :
    (∃ qs, found = some qs ∧
        (qs = [] ∨ ∃ v, v ≠ [] ∧ v <:+ t ∧ Wildcard.Searched qs v)) ↔
      p = [] ∨ ∃ v, v ≠ [] ∧ v <:+ t ∧ ∃ qs, found = some qs ∧ Wildcard.Searched qs v := by
  constructor
  · rintro ⟨qs, hfound, rfl | ⟨v, hv, hsuffix, hsearched⟩⟩
    · exact .inl (hnil.mp hfound)
    · exact .inr ⟨v, hv, hsuffix, qs, hfound, hsearched⟩
  · rintro (hp | ⟨v, hv, hsuffix, qs, hfound, hsearched⟩)
    · exact ⟨[], hnil.mpr hp, .inl rfl⟩
    · exact ⟨qs, hfound, .inr ⟨v, hv, hsuffix, hsearched⟩⟩

theorem readPattern_star (n : Nat) (p : List Char) :
    readPattern (n + 1) ('*' :: p) = (readPattern n p).bind fun qs => some (.any :: qs) := by
  rw [readPattern, if_neg (by decide), if_pos rfl]
  rfl

theorem star_iff {n : Nat} {p t : List Char} (hn : p.length ≤ n) (hp : p.head? ≠ some '*') :
    (∃ qs, readPattern (n + 1) ('*' :: p) = some qs ∧ Wildcard.Searched qs t) ↔
      p = [] ∨ ∃ v, v ≠ [] ∧ v <:+ t ∧
        ∃ qs, readPattern n p = some qs ∧ Wildcard.Searched qs v := by
  rw [readPattern_star, exists_cons_iff, ← exists_rest_iff (readPattern_eq_nil_iff hn)]
  refine exists_congr fun qs => and_congr_right fun hread => searched_any ?_
  rcases p with _ | ⟨c, p⟩
  · rw [readPattern_nil] at hread
    cases hread
    simp
  rcases n with _ | n
  · simp at hn
  exact readPattern_any (by simpa using hp) hread

theorem star_star_iff {n : Nat} {p t : List Char} (hn : p.length ≤ n) :
    (∃ qs, readPattern (n + 2) ('*' :: '*' :: p) = some qs ∧ Wildcard.Searched qs t) ↔
      p = [] ∨ ∃ v, v ≠ [] ∧ v <:+ t ∧
        ∃ qs, readPattern n p = some qs ∧ Wildcard.Searched qs v := by
  rw [readPattern_star, exists_cons_iff, readPattern_star,
    ← exists_rest_iff (readPattern_eq_nil_iff hn)]
  constructor
  · rintro ⟨qs, hread, hsearched⟩
    obtain ⟨qs', hread', heq⟩ := Option.bind_eq_some_iff.mp hread
    cases heq
    exact ⟨qs', hread', hsearched⟩
  · rintro ⟨qs, hread, hsearched⟩
    exact ⟨.any :: qs, by rw [hread]; rfl, hsearched⟩

theorem closing_length {p rest : List Char} (h : closing p = some rest) :
    rest.length < p.length := by
  fun_induction closing p with
  | case1 => cases h
  | case2 p =>
      cases h
      exact Nat.lt_succ_self _
  | case3 => cases h
  | case4 c p hc ih => exact Nat.lt_succ_of_lt (Nat.lt_succ_of_lt (ih h))
  | case5 c p hc hescape ih => exact Nat.lt_succ_of_lt (ih h)

theorem readBracket_length {p rest : List Char} {place : Wildcard Char}
    (h : readBracket p = some (place, rest)) : rest.length ≤ p.length := by
  unfold readBracket at h
  simp only [Option.bind_eq_bind] at h
  obtain ⟨⟨set, tail⟩, hset, heq⟩ := Option.bind_eq_some_iff.mp h
  cases heq
  have hclosing := closing_eq_readSet (Nat.le_refl (if isNegated p then p.tail else p).length)
  rw [hset] at hclosing
  have hlength := closing_length hclosing
  split at hlength
  · rw [List.length_tail] at hlength
    omega
  · omega

theorem readPattern_question (n : Nat) (p : List Char) :
    readPattern (n + 1) ('?' :: p) = (readPattern n p).bind fun qs =>
      some (.among (fun _ => true) :: qs) := by
  rw [readPattern, if_pos rfl]
  rfl

theorem readPattern_bracket (n : Nat) (p : List Char) :
    readPattern (n + 1) ('[' :: p) = (readBracket p).bind fun r =>
      (readPattern n r.2).bind fun qs => some (r.1 :: qs) := by
  rw [readPattern, if_neg (by decide), if_neg (by decide), if_pos rfl]
  rfl

theorem answers_end {n : Nat} {t : List Char} {text : Text} (htext : text.s = units t) :
    Answers (some text.s.isEmpty) (∃ qs, readPattern n [] = some qs ∧ Wildcard.Searched qs t) := by
  refine ⟨_, rfl, ?_⟩
  rw [htext, isEmpty_units, List.isEmpty_iff, readPattern_nil]
  constructor
  · intro ht
    exact ⟨[], rfl, ht⟩
  · rintro ⟨qs, heq, hsearched⟩
    cases heq
    exact hsearched

/-- The general case of a `*`, in front of the rest of the pattern. -/
theorem answers_star {toLower : UInt32 → UInt32} {passes n : Nat} {p t : List Char} {text : Text}
    (htext : text.s = units t)
    (ih : ∀ v, Answers (fnMatchInternal toLower passes (units p) { s := units v } 0)
      (∃ qs, readPattern n p = some qs ∧ Wildcard.Searched qs v)) :
    Answers
      (if p = [] then some true
      else anyRest false
        (fun test => fnMatchInternal toLower passes (units p) { s := test } 0)
        text.s.length text.s)
      (p = [] ∨ ∃ v, v ≠ [] ∧ v <:+ t ∧
        ∃ qs, readPattern n p = some qs ∧ Wildcard.Searched qs v) := by
  split
  · rename_i hp
    exact ⟨true, rfl, iff_of_true rfl (.inl hp)⟩
  · rename_i hp
    rw [or_iff_right hp, htext]
    exact anyRest_units (length_le_units t) ih

/-- `FnMatchInternal` without flags finds what the search in the nonempty ends finds. -/
theorem fnMatchInternal_units (toLower : UInt32 → UInt32) {n passes : Nat} {p t : List Char}
    {text : Text} (hn : p.length ≤ n) (hp : p.length ≤ passes) (htext : text.s = units t) :
    Answers (fnMatchInternal toLower passes (units p) text 0)
      (∃ qs, readPattern n p = some qs ∧ Wildcard.Searched qs t) := by
  induction passes generalizing n p t text with
  | zero =>
      obtain rfl := List.length_eq_zero_iff.mp (Nat.le_zero.mp hp)
      rw [units_nil, fnMatchInternal_nil]
      exact answers_end htext
  | succ passes ih =>
      rcases p with _ | ⟨c, p⟩
      · rw [units_nil, fnMatchInternal_nil]
        exact answers_end htext
      rcases n with _ | n
      · simp at hn
      have hpn : p.length ≤ n := Nat.le_of_succ_le_succ hn
      have hpp : p.length ≤ passes := Nat.le_of_succ_le_succ hp
      by_cases hquestion : c = '?'
      · subst hquestion
        rw [fnMatchInternal_question, readPattern_question]
        refine answers_one htext not_searched_nil ?_
        intro d t' text' htext'
        exact answers_among rfl (ih hpn hpp htext')
      by_cases hstar : c = '*'
      · subst hstar
        rw [fnMatchInternal_star]
        by_cases hnext : p.head? = some '*'
        · obtain ⟨rest, rfl⟩ := List.head?_eq_some_iff.mp hnext
          rcases n with _ | n
          · simp at hpn
          simp only [List.length_cons] at hpn hpp
          rw [if_pos hnext, List.tail_cons, star_star_iff (by omega)]
          exact answers_star htext fun v => ih (by omega) (by omega) rfl
        · rw [if_neg hnext, star_iff hpn hnext]
          exact answers_star htext fun v => ih hpn hpp rfl
      by_cases hbracket : c = '['
      · subst hbracket
        rw [fnMatchInternal_bracket, readPattern_bracket]
        refine answers_one htext ?_ ?_
        · rintro ⟨qs, hread, hsearched⟩
          obtain ⟨⟨place, rest⟩, hplace, hread⟩ := Option.bind_eq_some_iff.mp hread
          obtain ⟨b, rest', -, hnone | ⟨inside, hsome, -⟩⟩ := rangeMatch_units toLower 'a' p
          · rw [hnone.1] at hplace
            cases hplace
          · rw [hsome] at hplace
            cases hplace
            exact not_searched_nil ⟨qs, hread, hsearched⟩
        · intro d t' text' htext'
          obtain ⟨b, rest, hmatch, ⟨hnone, rfl⟩ | ⟨inside, hsome, rfl⟩⟩ :=
            rangeMatch_units toLower d p
          · rw [hmatch, hnone]
            exact answers_false fun ⟨qs, hread, _⟩ => by cases hread
          · have hlength := readBracket_length hsome
            rw [hmatch, hsome]
            simp only [Option.bind_some]
            cases hinside : inside d with
            | true => exact answers_among hinside (ih (by omega) (by omega) htext')
            | false => exact answers_wrong hinside
      · have hc := And.intro hquestion (And.intro hstar hbracket)
        have hlength := plain_length c p
        rw [fnMatchInternal_plain toLower passes p text hc, readPattern_plain p hc]
        refine answers_one htext not_searched_nil ?_
        intro d t' text' htext'
        by_cases hd : d = (plain c p).1
        · rw [if_pos (congrArg Char.val hd)]
          exact answers_among (by simpa using hd) (ih (by omega) (by omega) htext')
        · rw [if_neg (mt Char.val_inj.mp hd)]
          exact answers_wrong (by simpa using hd)

end FnMatch

/-- `FnMatch` without flags, of texts of characters, reads behind neither of them, and finds
exactly the texts in the language of the pattern, with three `*` or more at its end read as one
character and any text.  A pattern with a bracket that is not closed finds nothing. -/
theorem fnMatch_iff (toLower : UInt32 → UInt32) (p t : List Char) :
    ∃ found, fnMatch toLower (p.flatMap utf16Units) (t.flatMap utf16Units) 0 = some found ∧
      (found = true ↔ ∃ qs, FnMatch.places p = some qs ∧
        t ∈ Support.Wildcard.languageOf (Support.Wildcard.asSearched qs)) := by
  have htext : ({ s := FnMatch.units t } : FnMatch.Text).s = FnMatch.units t := rfl
  obtain ⟨b, hb, hiff⟩ := FnMatch.fnMatchInternal_units toLower (Nat.le_refl p.length)
    (FnMatch.length_le_units p) htext
  refine ⟨b, hb, hiff.trans ?_⟩
  simp only [Support.Wildcard.searched_iff]
  rfl

end Baulk
