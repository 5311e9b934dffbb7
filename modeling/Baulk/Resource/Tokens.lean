import Baulk.Core.Wide
import Baulk.Support.Transducer
import Mathlib.Tactic.Tauto

/-!
# Tokens of resource scripts

A resource script is read character by character.  In a literal a doubled quote stands
for a quote and a backslash begins an escape; a line end is an error there.  A character
that is none of these stands for itself, so a literal is shorter than its spelling unless
all its characters are of this kind.
-/

namespace Baulk.Resource

open Support

/-- A directive has the text of its line without the number sign. -/
inductive Token where
  | word (text : WString)
  | number (value : Int)
  | literal (text : WString)
  | comma
  | directive (text : WString)
  deriving DecidableEq

/-- Where the reader is; `code` is a character that is written by digits. -/
inductive Mode where
  | lineStart
  | between
  | slash
  | comment
  | word (text : WString)
  | directive (text : WString)
  | literal (text : WString)
  | quoted (text : WString)
  | escape (text : WString)
  | code (text : WString) (base value left : Nat)
  deriving DecidableEq

/-! ## Numbers -/

def digitValue (c : WChar) : Option Nat :=
  if 0x30 ≤ c ∧ c ≤ 0x39 then some (c.toNat - 0x30)
  else if 0x61 ≤ c ∧ c ≤ 0x66 then some (c.toNat - 0x61 + 10)
  else if 0x41 ≤ c ∧ c ≤ 0x46 then some (c.toNat - 0x41 + 10)
  else none

def digitOf (base : Nat) (c : WChar) : Option Nat :=
  (digitValue c).filter (· < base)

def readDigits (base : Nat) : WString → Nat → Option Nat
  | [], n => some n
  | c :: rest, n => (digitOf base c).bind fun d => readDigits base rest (base * n + d)

def readNatural (text : WString) : Option Nat :=
  if text = [] then none
  else if text.take 2 = wide "0x" then readDigits 16 (text.drop 2) 0
  else readDigits 10 text 0

/-- An `L` at the end says that a number is long. -/
def withoutSuffix (text : WString) : WString :=
  if text.getLast? = some 0x4C then text.dropLast else text

def readNumber (text : WString) : Option Int :=
  if text.head? = some 0x2D then (readNatural (withoutSuffix text).tail).map fun n => -(n : Int)
  else (readNatural (withoutSuffix text)).map fun n => (n : Int)

/-! ## Reading characters -/

def isBlank (c : WChar) : Bool :=
  c == 0x20 || c == 0x09 || c == 0x0D

def isWordChar (c : WChar) : Bool :=
  (0x30 ≤ c && c ≤ 0x39) || (0x41 ≤ c && c ≤ 0x5A) || (0x61 ≤ c && c ≤ 0x7A) ||
    c == 0x5F || c == 0x2D

/-- Words that begin with a digit or a sign are numbers. -/
def wordToken (text : WString) : Option Token :=
  if text.head?.any fun c => (0x30 ≤ c && c ≤ 0x39) || c == 0x2D then
    (readNumber text).map .number
  else some (.word text)

/-- A character between tokens. -/
def startToken (c : WChar) : Option (Mode × List Token) :=
  if isWordChar c then some (.word [c], [])
  else if c = 0x0A then some (.lineStart, [])
  else if isBlank c then some (.between, [])
  else if c = 0x2C then some (.between, [.comma])
  else if c = 0x22 then some (.literal [], [])
  else if c = 0x2F then some (.slash, [])
  else none

def literalStep (text : WString) (c : WChar) : Option Mode :=
  if c = 0x22 then some (.quoted text)
  else if c = 0x5C then some (.escape text)
  else if c = 0x0A ∨ c = 0x0D then none
  else some (.literal (text ++ [c]))

/-- The character of an escape of one letter; an unknown one stands for nothing. -/
def simpleEscape (c : WChar) : WString :=
  if c = 0x22 ∨ c = 0x5C then [c]
  else if c = 0x6E then [0x0A]
  else if c = 0x72 then [0x0D]
  else if c = 0x74 then [0x09]
  else if c = 0x61 then [0x07]
  else []

def escapeStep (text : WString) (c : WChar) : Option Mode :=
  if c = 0x0A ∨ c = 0x0D then none
  else if c = 0x78 then some (.code text 16 0 4)
  else
    match digitOf 8 c with
    | some d => some (.code text 8 d 2)
    | none => some (.literal (text ++ simpleEscape c))

def codeStep (text : WString) (base value left : Nat) (c : WChar) : Option Mode :=
  match left, digitOf base c with
  | left + 1, some d => some (.code text base (base * value + d) left)
  | _, _ => literalStep (text ++ [value.toUInt16]) c

/-- One character.  `L` right before a quote is the prefix of a wide literal. -/
def lexStep : Mode → WChar → Option (Mode × List Token)
  | .lineStart, c =>
      if c = 0x23 then some (.directive [], [])
      else if isBlank c then some (.lineStart, [])
      else startToken c
  | .between, c => startToken c
  | .slash, c => if c = 0x2F then some (.comment, []) else none
  | .comment, c => some (if c = 0x0A then .lineStart else .comment, [])
  | .word text, c =>
      if isWordChar c then some (.word (text ++ [c]), [])
      else if c = 0x22 then if text = wide "L" then some (.literal [], []) else none
      else (wordToken text).bind fun t => (startToken c).map (emit [t])
  | .directive text, c =>
      if c = 0x0A then some (.lineStart, [.directive text])
      else some (.directive (text ++ [c]), [])
  | .literal text, c => (literalStep text c).map (·, [])
  | .quoted text, c =>
      if c = 0x22 then some (.literal (text ++ [c]), [])
      else (startToken c).map (emit [.literal text])
  | .escape text, c => (escapeStep text c).map (·, [])
  | .code text base value left, c => (codeStep text base value left c).map (·, [])

/-! ## Characters that stand for themselves -/

def isPlain (c : WChar) : Bool :=
  c != 0x22 && c != 0x5C && c != 0x0A && c != 0x0D

/-- Every character of a text stands for itself. -/
def Plain (text : WString) : Prop :=
  ∀ c ∈ text, isPlain c = true

theorem literalStep_of_isPlain {c : WChar} (h : isPlain c = true) (text : WString) :
    literalStep text c = some (.literal (text ++ [c])) := by
  simp only [isPlain, Bool.and_eq_true, bne_iff_ne] at h
  obtain ⟨⟨⟨hquote, hslash⟩, hline⟩, hreturn⟩ := h
  unfold literalStep
  rw [if_neg hquote, if_neg hslash, if_neg (by tauto)]

theorem transduce_plain {text : WString} (h : Plain text) (before : WString) :
    transduce lexStep (.literal before) text = some (.literal (before ++ text), []) := by
  induction text generalizing before with
  | nil =>
      rw [List.append_nil]
      rfl
  | cons c text ih =>
      have hstep : lexStep (.literal before) c = some (.literal (before ++ [c]), []) := by
        rw [lexStep, literalStep_of_isPlain (h c List.mem_cons_self)]
        rfl
      rw [transduce_cons_of hstep, ih fun d hd => h d (List.mem_cons_of_mem _ hd),
        List.append_assoc]
      rfl

theorem transduce_word {text : WString} (h : ∀ c ∈ text, isWordChar c = true)
    (before : WString) :
    transduce lexStep (.word before) text = some (.word (before ++ text), []) := by
  induction text generalizing before with
  | nil =>
      rw [List.append_nil]
      rfl
  | cons c text ih =>
      have hstep : lexStep (.word before) c = some (.word (before ++ [c]), []) := by
        rw [lexStep, if_pos (h c List.mem_cons_self)]
      rw [transduce_cons_of hstep, ih fun d hd => h d (List.mem_cons_of_mem _ hd),
        List.append_assoc]
      rfl

/-! ## The spelling of a literal -/

/-- What a spelling stands for is the spelling itself, if it is plain, or shorter. -/
def Spelled (text spelling : WString) : Prop :=
  text = spelling ∧ Plain text ∨ text.length < spelling.length

theorem Spelled.length_le {text spelling : WString} (h : Spelled text spelling) :
    text.length ≤ spelling.length := by
  rcases h with ⟨rfl, -⟩ | hlt
  · exact Nat.le_refl _
  · exact Nat.le_of_lt hlt

/-- What is known in a literal of which `done` was read. -/
def Held : Mode → WString → Prop
  | .literal text, done => Spelled text done ∧ 0x0A ∉ done
  | .quoted text, done => ∃ body, done = body ++ [0x22] ∧ Spelled text body ∧ 0x0A ∉ body
  | .escape text, done => text.length < done.length ∧ 0x0A ∉ done
  | .code text _ _ _, done => text.length + 1 < done.length ∧ 0x0A ∉ done
  | _, _ => False

variable {mode mode' : Mode} {done : WString} {c : WChar} {t : Token} {ts : List Token}

theorem not_mem_concat (h : (0x0A : WChar) ∉ done) (hc : c ≠ 0x0A) : 0x0A ∉ done ++ [c] := by
  rw [List.mem_append, List.mem_singleton]
  exact fun hmem => hmem.elim h (Ne.symm hc)

theorem Held.not_mem (h : Held mode done) : (0x0A : WChar) ∉ done := by
  cases mode with
  | literal text => exact h.2
  | quoted text =>
      obtain ⟨body, rfl, -, hbody⟩ := h
      exact not_mem_concat hbody (by decide)
  | escape text => exact h.2
  | code text base value left => exact h.2
  | _ => exact h.elim

theorem held_literalStep {text : WString} (hspelled : Spelled text done)
    (hline : (0x0A : WChar) ∉ done) (h : literalStep text c = some mode') :
    Held mode' (done ++ [c]) := by
  have hle := hspelled.length_le
  unfold literalStep at h
  split at h
  · next hquote =>
    cases h
    exact ⟨done, by rw [hquote], hspelled, hline⟩
  split at h
  · next hslash =>
    cases h
    refine ⟨?_, not_mem_concat hline (by rw [hslash]; decide)⟩
    rw [List.length_append, List.length_singleton]
    omega
  split at h
  · cases h
  · next hquote hslash hends =>
    cases h
    rw [not_or] at hends
    refine ⟨?_, not_mem_concat hline hends.1⟩
    rcases hspelled with ⟨rfl, hplain⟩ | hlt
    · refine .inl ⟨rfl, fun d hd => ?_⟩
      rcases List.mem_append.mp hd with hd | hd
      · exact hplain d hd
      · rw [List.mem_singleton.mp hd]
        simp only [isPlain, Bool.and_eq_true, bne_iff_ne]
        exact ⟨⟨⟨hquote, hslash⟩, hends.1⟩, hends.2⟩
    · refine .inr ?_
      simp only [List.length_append, List.length_singleton]
      omega

theorem length_simpleEscape (c : WChar) : (simpleEscape c).length ≤ 1 := by
  unfold simpleEscape
  repeat' split
  all_goals simp

theorem held_escapeStep {text : WString} (hlt : text.length < done.length)
    (hline : (0x0A : WChar) ∉ done) (h : escapeStep text c = some mode') :
    Held mode' (done ++ [c]) := by
  have hcode : text.length + 1 < (done ++ [c]).length := by
    rw [List.length_append, List.length_singleton]
    omega
  unfold escapeStep at h
  split at h
  · cases h
  · next hends =>
    rw [not_or] at hends
    have hnot := not_mem_concat hline hends.1
    split at h
    · cases h
      exact ⟨hcode, hnot⟩
    · split at h
      · cases h
        exact ⟨hcode, hnot⟩
      · cases h
        have hone := length_simpleEscape c
        refine ⟨.inr ?_, hnot⟩
        simp only [List.length_append, List.length_singleton]
        omega

theorem held_codeStep {text : WString} {base value left : Nat}
    (hlt : text.length + 1 < done.length) (hline : (0x0A : WChar) ∉ done)
    (h : codeStep text base value left c = some mode') : Held mode' (done ++ [c]) := by
  unfold codeStep at h
  split at h
  · next left d hdigit =>
    cases h
    have hc : c ≠ 0x0A := by
      rintro rfl
      exact absurd hdigit (by simp [digitOf, digitValue])
    refine ⟨?_, not_mem_concat hline hc⟩
    rw [List.length_append, List.length_singleton]
    omega
  · refine held_literalStep (.inr ?_) hline h
    rw [List.length_append, List.length_singleton]
    exact hlt

theorem Held.step (h : Held mode done) (hstep : lexStep mode c = some (mode', [])) :
    Held mode' (done ++ [c]) := by
  cases mode with
  | literal text =>
      rw [lexStep, Option.map_eq_some_iff] at hstep
      obtain ⟨m, hm, heq⟩ := hstep
      cases heq
      exact held_literalStep h.1 h.2 hm
  | quoted text =>
      obtain ⟨body, rfl, hspelled, hline⟩ := h
      have hle := hspelled.length_le
      rw [lexStep] at hstep
      split at hstep
      · next hquote =>
        cases hstep
        refine ⟨.inr ?_, ?_⟩
        · simp only [List.length_append, List.length_singleton]
          omega
        · exact not_mem_concat (not_mem_concat hline (by decide)) (by rw [hquote]; decide)
      · rw [Option.map_eq_some_iff] at hstep
        obtain ⟨r, -, heq⟩ := hstep
        cases heq
  | escape text =>
      rw [lexStep, Option.map_eq_some_iff] at hstep
      obtain ⟨m, hm, heq⟩ := hstep
      cases heq
      exact held_escapeStep h.1 h.2 hm
  | code text base value left =>
      rw [lexStep, Option.map_eq_some_iff] at hstep
      obtain ⟨m, hm, heq⟩ := hstep
      cases heq
      exact held_codeStep h.1 h.2 hm
  | _ => exact h.elim

/-- What is put out first is the literal, and a quote was read right before. -/
theorem Held.emits (h : Held mode done) (hstep : lexStep mode c = some (mode', t :: ts)) :
    ∃ text body, t = .literal text ∧ done = body ++ [0x22] ∧ Spelled text body ∧
      0x0A ∉ body := by
  cases mode with
  | literal text =>
      rw [lexStep, Option.map_eq_some_iff] at hstep
      obtain ⟨m, -, heq⟩ := hstep
      cases heq
  | quoted text =>
      obtain ⟨body, rfl, hspelled, hline⟩ := h
      rw [lexStep] at hstep
      split at hstep
      · cases hstep
      · rw [Option.map_eq_some_iff] at hstep
        obtain ⟨r, -, heq⟩ := hstep
        cases heq
        exact ⟨text, body, rfl, rfl, hspelled, hline⟩
  | escape text =>
      rw [lexStep, Option.map_eq_some_iff] at hstep
      obtain ⟨m, -, heq⟩ := hstep
      cases heq
  | code text base value left =>
      rw [lexStep, Option.map_eq_some_iff] at hstep
      obtain ⟨m, -, heq⟩ := hstep
      cases heq
  | _ => exact h.elim

/-- From the beginning of a literal on, the first token is the literal; its spelling ends
with a quote in the same line. -/
theorem transduce_literal {s : WString} {out : List Token} (hline : (0x0A : WChar) ∈ s)
    (h : transduce lexStep (.literal []) s = some (mode, out)) :
    ∃ text body rest more, out = .literal text :: more ∧ s = body ++ 0x22 :: rest ∧
      Spelled text body ∧ 0x0A ∉ body := by
  have hstart : Held (.literal []) [] :=
    ⟨.inl ⟨rfl, fun _ hc => absurd hc List.not_mem_nil⟩, List.not_mem_nil⟩
  rcases first_output Held [] (fun hheld hstep => hheld.step hstep) hstart h with
    ⟨-, hend⟩ | ⟨front, a, back, t, t', b, now, later, rfl, hheld, hstep, rfl, -⟩
  · exact absurd hline hend.not_mem
  · obtain ⟨text, body, rfl, hfront, hspelled, hbody⟩ := hheld.emits hstep
    rw [List.nil_append] at hfront
    refine ⟨text, body, a :: back, now ++ later, rfl, ?_, hspelled, hbody⟩
    rw [hfront, List.append_assoc]
    rfl

example : transduce lexStep .lineStart (wide "L\"a\"\"b\\\\c\"\n") =
    some (.lineStart, [.literal (wide "a\"b\\c")]) := by
  decide

end Baulk.Resource
