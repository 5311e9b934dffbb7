import Baulk.Core.Numbers
import Baulk.Support.Cut
import Baulk.Support.Loop
import Mathlib.Data.Fin.Basic
import Mathlib.Logic.Function.Basic

/-!
# The progress messages of an installer

`decode_progress_message` goes over a message with a pointer.  What follows the
name of a field is skipped without a look at it, and so is what follows its
value, where the end of the message may stand.  `FGetInteger` ends a number by a
NUL that it writes over the delimiter.
-/

namespace Baulk.Archive.Msi

open Numbers Support

/-! ## The decoder -/

theorem neZero_four : NeZero 4 := ⟨by decide⟩

attribute [local instance] neZero_four

/-- `field`. -/
abbrev Fields := Fin 4 → Int

/-- The first delimiter: a space, or the end of the text. -/
def isDelimiter (c : WChar) : Bool :=
  c = 0 || c = 0x20

/-- `FGetInteger`: the number, the memory, and where `rpch` is left.  It is `none`
when the memory of the message is left. -/
def fGetInteger (memory : WString) (rpch : Nat) : Option (Int × WString × Nat) :=
  ((memory.drop rpch).findIdx? isDelimiter).map fun n =>
    ((simpleAtoi ((memory.drop rpch).take n)).1, memory.set (rpch + n) 0, rpch + n)

/-- `isdigit`.  It is not defined for a character that is no `unsigned char`. -/
def isDigit (c : WChar) : Bool :=
  0x30 ≤ c && c ≤ 0x39

/-- The variables of `decode_progress_message`. -/
structure Decoding where
  memory : WString
  pch : Nat
  field : Fields

def Decoding.start (message : WString) (field : Fields) : Decoding :=
  ⟨message ++ [0], 0, field⟩

/-- What it returns, and the fields; `none` when the memory of the message is
left. -/
abbrev Decoded := Option (Bool × Fields)

/-- `field[1]`, `field[2]` and `field[3]` are read alike; after some of them
nothing more is. -/
def readNumber (s : Decoding) (pch : Nat) (k : Fin 4) (done : Bool) :
    Step Decoding Decoded :=
  match fGetInteger s.memory pch with
  | none => .done none
  | some (n, memory, rpch) =>
      let field := Function.update s.field k n
      if done then .done (some (true, field)) else .next ⟨memory, rpch + 1, field⟩

/-- One round of the loop of `decode_progress_message`. -/
def decodeField (s : Decoding) : Step Decoding Decoded :=
  match s.memory[s.pch]? with
  | none => .done none
  | some chField =>
      if chField = 0 then .done (some (true, s.field))
      else
        let pch := s.pch + 3
        if chField = 0x31 then
          match s.memory[pch]? with
          | none => .done none
          | some c =>
              if isDigit c then
                .next ⟨s.memory, pch + 2, Function.update s.field 0 (c.toNat - 0x30)⟩
              else .done (some (false, s.field))
        else if chField = 0x32 then
          readNumber s pch 1 (s.field 0 = 2 || s.field 0 = 3)
        else if chField = 0x33 then readNumber s pch 2 (s.field 0 = 1)
        else if chField = 0x34 then readNumber s pch 3 true
        else .done (some (false, s.field))

/-- The loop of `decode_progress_message`. -/
def decodeLoop (fuel : Nat) (s : Decoding) : Option Decoded :=
  loop (fun s => some (decodeField s)) fuel s

/-- `decode_progress_message`, of a message that a NUL ends; the fields may be
those of an earlier one. -/
def decodeProgressMessage (fuel : Nat) (message : WString) (field : Fields) :
    Option Decoded :=
  if message = [] then some (some (false, field))
  else decodeLoop fuel (.start message field)

theorem decodeProgressMessage_unique {fuel fuel' : Nat} {message : WString} {field : Fields}
    {out out' : Decoded} (h : decodeProgressMessage fuel message field = some out)
    (h' : decodeProgressMessage fuel' message field = some out') : out = out' := by
  unfold decodeProgressMessage at h h'
  split at h
  · next hempty =>
      rw [if_pos hempty] at h'
      exact Option.some.inj (h.symm.trans h')
  · next hempty =>
      rw [if_neg hempty] at h'
      exact loop_unique h h'

/-! ## Messages -/

/-- The number of fields that a message of a type has. -/
def fieldCount (type : Int) : Nat :=
  if type = 2 ∨ type = 3 then 2 else if type = 1 then 3 else 4

/-- `1: a 2: b 3: c 4: d`, from the field `k + 1` on. -/
def fieldsText : Nat → List WString → WString
  | _, [] => []
  | k, [text] => digitChar (k + 1) :: 0x3A :: 0x20 :: text
  | k, text :: next :: texts =>
      digitChar (k + 1) :: 0x3A :: 0x20 :: (text ++ 0x20 :: fieldsText (k + 1) (next :: texts))

/-- A message with the fields of its type, and perhaps with more of them. -/
def WellFormed (message : WString) (type : Nat) (numbers : List Int) : Prop :=
  type < 10 ∧ fieldCount type ≤ numbers.length + 1 ∧ numbers.length ≤ 3 ∧
    ∃ texts, List.Forall₂ IsNumeral texts numbers ∧
      message = fieldsText 0 (digitsText [type] :: texts)

/-- The fields of the type become the numbers of the message. -/
def SetsFields (type : Nat) (numbers : List Int) (field field' : Fields) : Prop :=
  ∀ k : Fin 4, field' k =
    if k.val < fieldCount type then ((type : Int) :: numbers).getD k 0 else field k

/-- The decoder comes to an end, stays inside the message, and reads a well-formed
message for what it says. -/
structure Decodes (message : WString) (field : Fields) : Prop where
  ends : ∃ fuel out, decodeProgressMessage fuel message field = some out
  inside : ∀ fuel, decodeProgressMessage fuel message field ≠ some none
  reads : ∀ type numbers, WellFormed message type numbers →
    ∀ fuel result field', decodeProgressMessage fuel message field = some (some (result, field')) →
      result = true ∧ SetsFields type numbers field field'

example : (decodeProgressMessage 9 (wide "1: 2 2: 4854 3: 0 4: 0") fun _ => 7).map
      (Option.map fun out => (out.1, List.ofFn out.2)) =
    some (some (true, [2, 4854, 7, 7])) := by
  decide

/-! ## One round -/

/-- What the decoder has not looked at yet. -/
def Ahead (s : Decoding) (rest : WString) : Prop :=
  s.memory.drop s.pch = rest ++ [0]

theorem Ahead.start (message : WString) (field : Fields) : Ahead (.start message field) message :=
  rfl

theorem Ahead.getElem? {s : Decoding} {rest : WString} (h : Ahead s rest) (k : Nat) :
    s.memory[s.pch + k]? = (rest ++ [0])[k]? := by
  rw [← h, List.getElem?_drop]

theorem Ahead.drop {s : Decoding} {rest : WString} (h : Ahead s rest) (k : Nat) :
    s.memory.drop (s.pch + k) = (rest ++ [0]).drop k := by
  rw [← h, List.drop_drop]

/-- Nothing is ahead that could be read. -/
def Past (s : Decoding) : Prop :=
  s.memory.drop s.pch = []

theorem decodeField_past {s : Decoding} (h : Past s) : decodeField s = .done none := by
  have hread : s.memory[s.pch]? = none := List.getElem?_eq_none (List.drop_eq_nil_iff.mp h)
  unfold decodeField
  rw [hread]

theorem findIdx?_isDelimiter {text rest : WString} {c : WChar}
    (htext : ∀ x ∈ text, isDelimiter x = false) (hc : isDelimiter c = true) :
    (text ++ c :: rest).findIdx? isDelimiter = some text.length := by
  rw [List.findIdx?_append, List.findIdx?_eq_none_iff.mpr htext, List.findIdx?_cons, if_pos hc]
  simp

theorem isDelimiter_eq_false {text : WString} (hnul : (0 : WChar) ∉ text)
    (hspace : (0x20 : WChar) ∉ text) : ∀ x ∈ text, isDelimiter x = false := by
  intro x hx
  unfold isDelimiter
  rw [Bool.or_eq_false_iff, decide_eq_false_iff_not, decide_eq_false_iff_not]
  exact And.intro (fun h => hnul (h ▸ hx)) fun h => hspace (h ▸ hx)

theorem fGetInteger_of_drop {memory text rest : WString} {rpch : Nat} {c : WChar}
    (htext : ∀ x ∈ text, isDelimiter x = false) (hc : isDelimiter c = true)
    (hdrop : memory.drop rpch = text ++ c :: rest) :
    ∃ memory', fGetInteger memory rpch =
        some ((simpleAtoi text).1, memory', rpch + text.length) ∧
      memory'.drop (rpch + text.length + 1) = rest := by
  refine ⟨memory.set (rpch + text.length) 0, ?_, ?_⟩
  · unfold fGetInteger
    rw [hdrop, findIdx?_isDelimiter htext hc, Option.map_some, List.take_left]
  · rw [List.drop_set_of_lt (by omega), Nat.add_assoc, ← List.drop_drop, hdrop,
      ← List.drop_drop, List.drop_left, List.drop_one, List.tail_cons]

theorem fGetInteger_past {memory : WString} {rpch : Nat} (h : memory.drop rpch = []) :
    fGetInteger memory rpch = none := by
  unfold fGetInteger
  rw [h]
  rfl

def fieldChar (k : Fin 4) : WChar :=
  digitChar (k.val + 1)

/-- Nothing is read after this field, in a message of this type. -/
def isLast (type : Int) (k : Fin 4) : Bool :=
  k = 3 || k = 2 && type = 1 || k = 1 && (type = 2 || type = 3)

section Round

variable {s : Decoding} {rest : WString}

theorem decodeField_end (h : Ahead s []) : decodeField s = .done (some (true, s.field)) := by
  have hread : s.memory[s.pch]? = some 0 := h.getElem? 0
  unfold decodeField
  rw [hread]
  rfl

theorem decodeField_unknown {c : WChar} (h : Ahead s (c :: rest)) (hnul : c ≠ 0)
    (hc : ∀ k, c ≠ fieldChar k) : decodeField s = .done (some (false, s.field)) := by
  have hread : s.memory[s.pch]? = some c := h.getElem? 0
  have h1 : c ≠ 0x31 := hc 0
  have h2 : c ≠ 0x32 := hc 1
  have h3 : c ≠ 0x33 := hc 2
  have h4 : c ≠ 0x34 := hc 3
  unfold decodeField
  rw [hread]
  dsimp only
  rw [if_neg hnul, if_neg h1, if_neg h2, if_neg h3, if_neg h4]

theorem decodeField_number {k : Fin 4} (hk : k ≠ 0) (h : Ahead s (fieldChar k :: rest)) :
    decodeField s = readNumber s (s.pch + 3) k (isLast (s.field 0) k) := by
  have hread : s.memory[s.pch]? = some (fieldChar k) := h.getElem? 0
  unfold decodeField
  rw [hread]
  have hcases : k = 1 ∨ k = 2 ∨ k = 3 := by omega
  rcases hcases with rfl | rfl | rfl
  · simp [fieldChar, digitChar, isLast]
  · simp [fieldChar, digitChar, isLast]
  · simp [fieldChar, digitChar, isLast]

/-- The state after a round that stored the type. -/
def Decoding.afterType (s : Decoding) (c : WChar) : Decoding :=
  ⟨s.memory, s.pch + 5, Function.update s.field 0 (c.toNat - 0x30)⟩

theorem Decoding.afterType_field (s : Decoding) (c : WChar) :
    (s.afterType c).field = Function.update s.field 0 (c.toNat - 0x30 : Int) :=
  rfl

theorem Decoding.afterType_field_zero (s : Decoding) (c : WChar) :
    (s.afterType c).field 0 = c.toNat - 0x30 := by
  rw [afterType_field, Function.update_self]

theorem Ahead.afterType (h : Ahead s rest) (c : WChar) :
    (s.afterType c).memory.drop (s.afterType c).pch = (rest ++ [0]).drop 5 :=
  h.drop 5

/-- The round of the first field, by the character where its value should be. -/
theorem decodeField_type (h : Ahead s (0x31 :: rest)) :
    decodeField s =
      match (rest ++ [0])[2]? with
      | none => .done none
      | some c =>
          if isDigit c then .next (s.afterType c) else .done (some (false, s.field)) := by
  have hread : s.memory[s.pch]? = some 0x31 := h.getElem? 0
  have hvalue : s.memory[s.pch + 3]? = (rest ++ [0])[2]? := h.getElem? 3
  unfold decodeField
  rw [hread]
  dsimp only
  rw [if_neg (by decide), if_pos rfl, hvalue]
  rfl

theorem Ahead.number_drop {c x y : WChar} {text more : WString}
    (h : Ahead s (c :: x :: y :: (text ++ 0x20 :: more))) :
    s.memory.drop (s.pch + 3) = text ++ 0x20 :: (more ++ [0]) := by
  rw [h.drop 3]
  change text ++ 0x20 :: more ++ [0] = _
  rw [List.append_assoc, List.cons_append]

theorem decodeField_digit {x y c : WChar} (h : Ahead s (0x31 :: x :: y :: c :: rest))
    (hc : isDigit c = true) : decodeField s = .next (s.afterType c) := by
  rw [decodeField_type h]
  change (if isDigit c = true then _ else _) = _
  rw [if_pos hc]

theorem readNumber_past {pch : Nat} {k : Fin 4} {done : Bool} (h : s.memory.drop pch = []) :
    readNumber s pch k done = .done none := by
  unfold readNumber
  rw [fGetInteger_past h]

theorem readNumber_last {pch : Nat} {k : Fin 4} {text more : WString} {c : WChar}
    (htext : ∀ x ∈ text, isDelimiter x = false) (hc : isDelimiter c = true)
    (h : s.memory.drop pch = text ++ c :: more) :
    readNumber s pch k true =
      .done (some (true, Function.update s.field k (simpleAtoi text).1)) := by
  obtain ⟨memory, hget, -⟩ := fGetInteger_of_drop htext hc h
  unfold readNumber
  rw [hget]
  rfl

theorem readNumber_next {pch : Nat} {k : Fin 4} {text more : WString} {c : WChar}
    (htext : ∀ x ∈ text, isDelimiter x = false) (hc : isDelimiter c = true)
    (h : s.memory.drop pch = text ++ c :: more) :
    ∃ s', readNumber s pch k false = .next s' ∧ s'.memory.drop s'.pch = more ∧
      s'.field = Function.update s.field k (simpleAtoi text).1 := by
  obtain ⟨memory, hget, hmore⟩ := fGetInteger_of_drop htext hc h
  refine ⟨⟨memory, pch + text.length + 1, Function.update s.field k (simpleAtoi text).1⟩,
    ?_, hmore, rfl⟩
  unfold readNumber
  rw [hget]
  rfl

end Round

/-! ## Termination -/

theorem fGetInteger_memory {memory memory' : WString} {rpch rpch' : Nat} {n : Int}
    (h : fGetInteger memory rpch = some (n, memory', rpch')) :
    rpch ≤ rpch' ∧ memory'.length = memory.length := by
  unfold fGetInteger at h
  obtain ⟨k, -, hk⟩ := Option.map_eq_some_iff.mp h
  cases hk
  exact And.intro (Nat.le_add_right _ _) (List.length_set ..)

theorem readNumber_pch {s s' : Decoding} {pch : Nat} {k : Fin 4} {done : Bool}
    (h : readNumber s pch k done = .next s') :
    pch < s'.pch ∧ s'.memory.length = s.memory.length := by
  unfold readNumber at h
  cases hget : fGetInteger s.memory pch with
  | none =>
      rw [hget] at h
      cases h
  | some out =>
      obtain ⟨n, memory, rpch⟩ := out
      obtain ⟨hle, hlength⟩ := fGetInteger_memory hget
      rw [hget] at h
      cases done with
      | true => cases h
      | false =>
          cases h
          exact And.intro (Nat.lt_succ_of_le hle) hlength

/-- The pointer moves on, from a place inside the message. -/
theorem decodeField_pch {s s' : Decoding} (h : decodeField s = .next s') :
    s.pch < s.memory.length ∧ s.pch < s'.pch ∧ s'.memory.length = s.memory.length := by
  unfold decodeField at h
  cases hread : s.memory[s.pch]? with
  | none =>
      rw [hread] at h
      cases h
  | some chField =>
      refine And.intro (List.getElem?_eq_some_iff.mp hread).1 ?_
      have hnumber : ∀ {k : Fin 4} {done : Bool}, readNumber s (s.pch + 3) k done = .next s' →
          s.pch < s'.pch ∧ s'.memory.length = s.memory.length := fun hnumber =>
        have hpch := readNumber_pch hnumber
        And.intro (by omega) hpch.2
      rw [hread] at h
      dsimp only at h
      split at h
      · cases h
      · split at h
        · cases hvalue : s.memory[s.pch + 3]? with
          | none =>
              rw [hvalue] at h
              cases h
          | some c =>
              rw [hvalue] at h
              dsimp only at h
              split at h
              · cases h
                exact And.intro (by dsimp only; omega) rfl
              · cases h
        · split at h
          · exact hnumber h
          · split at h
            · exact hnumber h
            · split at h
              · exact hnumber h
              · cases h

/-- As many rounds as the memory has characters are enough. -/
theorem decodeProgressMessage_returns (message : WString) (field : Fields) :
    ∃ out, decodeProgressMessage (message.length + 2) message field = some out := by
  unfold decodeProgressMessage
  split
  · exact ⟨_, rfl⟩
  · have hlength : (Decoding.start message field).memory.length = message.length + 1 :=
      List.length_append
    refine loop_returns (B := fun m s => s.memory.length ≤ s.pch + m) ?_ (m := message.length + 1)
      ?_ (Nat.lt_succ_self _)
    · intro m s hs
      refine ⟨decodeField s, rfl, fun s' hs' => ?_⟩
      obtain ⟨hinside, hpch, hlength⟩ := decodeField_pch hs'
      exact ⟨m - 1, by omega, by omega⟩
    · rw [hlength]
      exact Nat.le_add_left _ _

/-! ## Staying inside -/

/-- The messages that the decoder does not leave, where `type` is what is in
`field[0]`.  After a value that is not the last one of its type something more has
to stand. -/
inductive Contained : Int → WString → Prop where
  | done {type : Int} : Contained type []
  | unknown {type : Int} {c : WChar} {rest : WString} (hc : ∀ k, c ≠ fieldChar k) :
      Contained type (c :: rest)
  | blank {type : Int} {x y : WChar} {rest : WString}
      (hrest : ∀ c ∈ rest.head?, isDigit c = false) :
      Contained type (fieldChar 0 :: x :: y :: rest)
  | type {type : Int} {x y c z : WChar} {rest : WString} (hc : isDigit c = true)
      (hrest : Contained (c.toNat - 0x30) rest) :
      Contained type (fieldChar 0 :: x :: y :: c :: z :: rest)
  | last {type : Int} {k : Fin 4} {x y : WChar} {rest : WString} (hk : k ≠ 0)
      (hlast : isLast type k = true) : Contained type (fieldChar k :: x :: y :: rest)
  | number {type : Int} {k : Fin 4} {x y : WChar} {text rest : WString} (hk : k ≠ 0)
      (hlast : isLast type k = false) (htext : (0x20 : WChar) ∉ text)
      (hrest : Contained type rest) :
      Contained type (fieldChar k :: x :: y :: (text ++ 0x20 :: rest))

theorem decodeLoop_next {s s' : Decoding} {fuel : Nat} (h : decodeField s = .next s') :
    decodeLoop (fuel + 1) s = decodeLoop fuel s' :=
  loop_next (congrArg some h)

theorem decodeLoop_done {s : Decoding} {out : Decoded} {fuel : Nat}
    (h : decodeField s = .done out) :
    decodeLoop (fuel + 1) s = some out :=
  loop_done (congrArg some h)

theorem decodeLoop_left {s : Decoding} (h : decodeField s = .done none) {fuel : Nat}
    {out : Bool × Fields} : decodeLoop fuel s ≠ some (some out) := by
  cases fuel with
  | zero => exact nofun
  | succ fuel =>
      rw [decodeLoop_done h]
      exact nofun

theorem decodeLoop_past {s : Decoding} (h : Past s) {fuel : Nat} {out : Bool × Fields} :
    decodeLoop fuel s ≠ some (some out) :=
  decodeLoop_left (decodeField_past h)

theorem isDelimiter_nul : isDelimiter 0 = true := rfl

theorem isDelimiter_space : isDelimiter 0x20 = true := rfl

theorem exists_number {u : WString} (hnul : (0 : WChar) ∉ u) :
    ∃ text c more, u ++ [0] = text ++ c :: more ∧ (∀ x ∈ text, isDelimiter x = false) ∧
      isDelimiter c = true := by
  rcases cut_cases u 0x20 with hspace | ⟨a, b, rfl, hspace⟩
  · exact ⟨u, 0, [], rfl, isDelimiter_eq_false hnul hspace, isDelimiter_nul⟩
  · have ha : (0 : WChar) ∉ a := fun h => hnul (List.mem_append_left _ h)
    exact ⟨a, 0x20, b ++ [0], by rw [List.append_assoc, List.cons_append],
      isDelimiter_eq_false ha hspace, isDelimiter_space⟩

theorem Contained.decodeLoop {type : Int} {rest : WString} (h : Contained type rest) :
    ∀ {s : Decoding}, s.field 0 = type → (0 : WChar) ∉ rest → Ahead s rest →
      ∃ fuel out, decodeLoop fuel s = some (some out) := by
  induction h with
  | done =>
      intro s _ _ hs
      exact ⟨1, _, decodeLoop_done (decodeField_end hs)⟩
  | unknown hc =>
      intro s _ hnul hs
      have hne : (0 : WChar) ≠ _ := fun heq => hnul (heq ▸ List.mem_cons_self)
      exact ⟨1, _, decodeLoop_done (decodeField_unknown hs hne.symm hc)⟩
  | @blank type x y rest hrest =>
      intro s _ _ hs
      have hround : decodeField s = .done (some (false, s.field)) := by
        rw [decodeField_type hs]
        cases rest with
        | nil => rfl
        | cons c rest =>
            change (if isDigit c = true then _ else _) = _
            rw [hrest c rfl]
            rfl
      exact ⟨1, _, decodeLoop_done hround⟩
  | @type type x y c z rest hc _ ih =>
      intro s _ hnul hs
      obtain ⟨fuel, out, hout⟩ := ih (s.afterType_field_zero c)
        (fun hmem => hnul (by simp [hmem])) (hs.afterType c)
      exact ⟨fuel + 1, out, (decodeLoop_next (decodeField_digit hs hc)).trans hout⟩
  | @last type k x y rest hk hlast =>
      intro s htype hnul hs
      obtain ⟨text, c, more, heq, htext, hc⟩ :=
        exists_number (u := rest) fun hmem => hnul (by simp [hmem])
      have hround := decodeField_number hk hs
      rw [htype, hlast, readNumber_last htext hc ((hs.drop 3).trans heq)] at hround
      exact ⟨1, _, decodeLoop_done hround⟩
  | @number type k x y text rest hk hlast htext _ ih =>
      intro s htype hnul hs
      have hclear := isDelimiter_eq_false (fun hmem => hnul (by simp [hmem])) htext
      obtain ⟨s', hnext, hmore, hfield⟩ :=
        readNumber_next (k := k) hclear isDelimiter_space hs.number_drop
      have hround := decodeField_number hk hs
      rw [htype, hlast, hnext] at hround
      obtain ⟨fuel, out, hout⟩ :=
        ih (s := s') (by rw [hfield, Function.update_of_ne hk.symm, htype])
        (fun hmem => hnul (by simp [hmem])) hmore
      exact ⟨fuel + 1, out, (decodeLoop_next hround).trans hout⟩

theorem fieldChar_cases (c : WChar) :
    c = fieldChar 0 ∨ (∃ k, k ≠ 0 ∧ c = fieldChar k) ∨ ∀ k, c ≠ fieldChar k := by
  by_cases h : ∃ k, c = fieldChar k
  · obtain ⟨k, hk⟩ := h
    by_cases hzero : k = 0
    · exact .inl (hzero ▸ hk)
    · exact .inr (.inl ⟨k, hzero, hk⟩)
  · exact .inr (.inr fun k hk => h ⟨k, hk⟩)

theorem contained_of_decodeLoop {fuel : Nat} {s : Decoding} {rest : WString}
    {out : Bool × Fields} (hnul : (0 : WChar) ∉ rest) (hs : Ahead s rest)
    (h : decodeLoop fuel s = some (some out)) : Contained (s.field 0) rest := by
  induction fuel generalizing s rest with
  | zero => contradiction
  | succ fuel ih =>
      cases rest with
      | nil => exact .done
      | cons c rest =>
          rcases fieldChar_cases c with rfl | ⟨k, hk, rfl⟩ | hc
          · have hround := decodeField_type hs
            match rest, hround, hnul, hs with
            | [], hround, _, _ => exact absurd h (decodeLoop_left hround)
            | [x], hround, _, _ => exact absurd h (decodeLoop_left hround)
            | [x, y], _, _, _ => exact .blank nofun
            | x :: y :: c :: rest, hround, hnul, hs =>
                cases hdigit : isDigit c with
                | false =>
                    refine .blank fun d hd => ?_
                    cases hd
                    exact hdigit
                | true =>
                    rw [decodeLoop_next (decodeField_digit hs hdigit)] at h
                    cases rest with
                    | nil => exact absurd h (decodeLoop_past (hs.afterType c))
                    | cons z rest =>
                        have hrest : Contained ((s.afterType c).field 0) rest :=
                          ih (fun hmem => hnul (by simp [hmem])) (hs.afterType c) h
                        rw [s.afterType_field_zero c] at hrest
                        exact .type hdigit hrest
          · have hround := decodeField_number hk hs
            match rest, hround, hnul, hs with
            | [], hround, _, hs =>
                rw [readNumber_past (hs.drop 3)] at hround
                exact absurd h (decodeLoop_left hround)
            | [x], hround, _, hs =>
                rw [readNumber_past (hs.drop 3)] at hround
                exact absurd h (decodeLoop_left hround)
            | x :: y :: u, hround, hnul, hs =>
                cases hlast : isLast (s.field 0) k with
                | true => exact .last hk hlast
                | false =>
                    rw [hlast] at hround
                    have hnul' : (0 : WChar) ∉ u := fun hmem => hnul (by simp [hmem])
                    rcases cut_cases u 0x20 with hspace | ⟨text, more, rfl, hspace⟩
                    · have hclear := isDelimiter_eq_false hnul' hspace
                      obtain ⟨s', hnext, hmore, -⟩ :=
                        readNumber_next (k := k) hclear isDelimiter_nul (hs.drop 3)
                      rw [decodeLoop_next (hround.trans hnext)] at h
                      exact absurd h (decodeLoop_past hmore)
                    · have hclear := isDelimiter_eq_false
                        (fun hmem => hnul' (List.mem_append_left _ hmem)) hspace
                      obtain ⟨s', hnext, hmore, hfield⟩ :=
                        readNumber_next (k := k) hclear isDelimiter_space hs.number_drop
                      rw [decodeLoop_next (hround.trans hnext)] at h
                      have hrest := ih (fun hmem => hnul' (by simp [hmem])) hmore h
                      rw [hfield, Function.update_of_ne hk.symm] at hrest
                      exact .number hk hlast hspace hrest
          · exact .unknown hc

/-! ## Well-formed messages -/

theorem isLast_eq {type : Int} {k : Fin 4} (hk : k ≠ 0) (hcount : k.val < fieldCount type) :
    isLast type k = decide (k.val + 1 = fieldCount type) := by
  have hcases : k = 1 ∨ k = 2 ∨ k = 3 := by omega
  unfold fieldCount at hcount ⊢
  split_ifs at hcount ⊢ with htwo hone
  · rcases hcases with rfl | rfl | rfl
    · simpa [isLast] using htwo
    · exact absurd hcount (by decide)
    · exact absurd hcount (by decide)
  · rcases hcases with rfl | rfl | rfl
    · simp [isLast, hone]
    · simp [isLast, hone]
    · exact absurd hcount (by decide)
  · rcases hcases with rfl | rfl | rfl
    · simpa [isLast] using htwo
    · simpa [isLast] using hone
    · simp [isLast]

theorem clear_of_isNumeral {text : WString} {n : Int} (h : IsNumeral text n) :
    ∀ x ∈ text, isDelimiter x = false :=
  isDelimiter_eq_false (h.not_mem (by decide) (by decide)) (h.not_mem (by decide) (by decide))

/-- What the fields from `k` on become. -/
def SetsFrom (k : Nat) (type : Int) (numbers : List Int) (field field' : Fields) : Prop :=
  ∀ j : Fin 4, field' j =
    if k ≤ j.val ∧ j.val < fieldCount type then numbers.getD (j.val - k) 0 else field j

theorem SetsFrom.last {k : Fin 4} {type n : Int} {numbers : List Int} {field : Fields}
    (hlast : k.val + 1 = fieldCount type) :
    SetsFrom k.val type (n :: numbers) field (Function.update field k n) := by
  intro j
  by_cases hj : j = k
  · subst hj
    rw [Function.update_self, if_pos (by omega), Nat.sub_self, List.getD_cons_zero]
  · rw [Function.update_of_ne hj, if_neg (by omega)]

theorem SetsFrom.next {k : Fin 4} {type n : Int} {numbers : List Int} {field field' : Fields}
    (hcount : k.val < fieldCount type)
    (h : SetsFrom (k.val + 1) type numbers (Function.update field k n) field') :
    SetsFrom k.val type (n :: numbers) field field' := by
  intro j
  rw [h j]
  by_cases hj : j = k
  · subst hj
    rw [if_neg (by omega), Function.update_self, if_pos (by omega), Nat.sub_self,
      List.getD_cons_zero]
  · by_cases hin : k.val + 1 ≤ j.val ∧ j.val < fieldCount type
    · have hsub : j.val - k.val = (j.val - (k.val + 1)) + 1 := by omega
      rw [if_pos hin, if_pos (by omega), hsub, List.getD_cons_succ]
    · rw [if_neg hin, if_neg (by omega), Function.update_of_ne hj]

/-- The numbers of a well-formed message are read in turn. -/
theorem decodeLoop_numbers {type : Int} {texts : List WString} {numbers : List Int}
    (hnumbers : List.Forall₂ IsNumeral texts numbers) {k : Nat} (hk : k ≠ 0)
    (hcount : k < fieldCount type) (henough : fieldCount type ≤ k + numbers.length)
    (hfour : k + numbers.length ≤ 4) {s : Decoding} (htype : s.field 0 = type)
    (hs : Ahead s (fieldsText k texts)) :
    ∃ fuel field', decodeLoop fuel s = some (some (true, field')) ∧
      SetsFrom k type numbers s.field field' := by
  induction hnumbers generalizing k s with
  | nil =>
      rw [List.length_nil] at henough
      omega
  | @cons text n texts numbers hnumeral hrest ih =>
      rw [List.length_cons] at henough hfour
      obtain ⟨k, rfl⟩ : ∃ k' : Fin 4, k'.val = k := ⟨⟨k, by omega⟩, rfl⟩
      have hzero : k ≠ 0 := fun h => hk (h ▸ rfl)
      have hclear := clear_of_isNumeral hnumeral
      have hvalue := congrArg Prod.fst (simpleAtoi_of_isNumeral hnumeral)
      have hlast := isLast_eq hzero hcount
      rw [← htype] at hlast
      cases texts with
      | nil =>
          cases hrest
          have hend : k.val + 1 = fieldCount type := by
            rw [List.length_nil] at henough
            omega
          have hround := decodeField_number hzero hs
          rw [hlast, htype, decide_eq_true hend,
            readNumber_last hclear isDelimiter_nul (hs.drop 3), hvalue] at hround
          exact ⟨1, _, decodeLoop_done hround, .last hend⟩
      | cons next texts =>
          have hround := decodeField_number hzero hs
          by_cases hend : k.val + 1 = fieldCount type
          · rw [hlast, htype, decide_eq_true hend,
              readNumber_last hclear isDelimiter_space hs.number_drop, hvalue] at hround
            exact ⟨1, _, decodeLoop_done hround, .last hend⟩
          · obtain ⟨s', hnext, hmore, hfield⟩ :=
              readNumber_next (k := k) hclear isDelimiter_space hs.number_drop
            rw [hlast, htype, decide_eq_false hend, hnext] at hround
            rw [hvalue] at hfield
            have htype' : s'.field 0 = type := by
              rw [hfield, Function.update_of_ne hzero.symm, htype]
            obtain ⟨fuel, field', hloop, hsets⟩ :=
              ih (Nat.succ_ne_zero _) (by omega) (by omega) (by omega) htype' hmore
            rw [hfield] at hsets
            exact ⟨fuel + 1, field', (decodeLoop_next hround).trans hloop, hsets.next hcount⟩

theorem two_le_fieldCount (type : Int) : 2 ≤ fieldCount type := by
  unfold fieldCount
  split_ifs <;> omega

theorem isDigit_digitChar {d : Nat} (hd : d < 10) : isDigit (digitChar d) = true := by
  have hall : ∀ d < 10, isDigit (digitChar d) = true := by decide
  exact hall d hd

theorem decodeProgressMessage_wellFormed {message : WString} {type : Nat} {numbers : List Int}
    (h : WellFormed message type numbers) (field : Fields) :
    ∃ fuel field', decodeProgressMessage fuel message field = some (some (true, field')) ∧
      SetsFields type numbers field field' := by
  obtain ⟨hten, henough, hthree, texts, hnumbers, hmessage⟩ := h
  have htwo := two_le_fieldCount type
  have hvalue : ((digitChar type).toNat : Int) - 0x30 = type := by
    rw [digitChar_toNat hten]
    omega
  have hrest : message = 0x31 :: 0x3A :: 0x20 :: digitChar type :: 0x20 :: fieldsText 1 texts := by
    cases hnumbers with
    | nil =>
        rw [List.length_nil] at henough
        omega
    | cons hnumeral hnumbers => exact hmessage
  have hs : Ahead (.start message field)
      (0x31 :: 0x3A :: 0x20 :: digitChar type :: 0x20 :: fieldsText 1 texts) :=
    hrest ▸ Ahead.start message field
  have hround := decodeField_digit hs (isDigit_digitChar hten)
  have hzero := ((Decoding.start message field).afterType_field_zero (digitChar type)).trans hvalue
  obtain ⟨fuel, field', hloop, hsets⟩ := decodeLoop_numbers hnumbers Nat.one_ne_zero
    (by omega) (by omega) (by omega) hzero (hs.afterType (digitChar type))
  rw [Decoding.afterType_field, hvalue] at hsets
  have hfrom : SetsFrom 0 type (type :: numbers) field field' :=
    hsets.next (k := 0) (Nat.zero_lt_of_lt htwo)
  refine ⟨fuel + 1, field', ?_, fun j => ?_⟩
  · unfold decodeProgressMessage
    rw [if_neg (hrest ▸ List.cons_ne_nil _ _), decodeLoop_next hround, hloop]
  · rw [hfrom j, Nat.sub_zero]
    simp only [Nat.zero_le, true_and]

/-! ## The decoder -/

/-- The decoder comes to an end, stays inside the message and reads a well-formed
message for what it says, if and only if something stands after each value that is
not the last one of its type. -/
theorem decodes_iff {message : WString} (hnul : (0 : WChar) ∉ message) (field : Fields) :
    Decodes message field ↔ Contained (field 0) message := by
  constructor
  · intro h
    obtain ⟨out, hout⟩ := decodeProgressMessage_returns message field
    cases out with
    | none => exact absurd hout (h.inside _)
    | some out =>
        unfold decodeProgressMessage at hout
        split at hout
        · next hempty =>
            rw [hempty]
            exact .done
        · exact contained_of_decodeLoop hnul (.start message field) hout
  · intro h
    have hstays : ∃ fuel out, decodeProgressMessage fuel message field = some (some out) := by
      unfold decodeProgressMessage
      split
      · exact ⟨0, _, rfl⟩
      · exact h.decodeLoop rfl hnul (.start message field)
    obtain ⟨fuel, out, hout⟩ := hstays
    refine ⟨⟨fuel, _, hout⟩, fun fuel' hleft => ?_,
      fun type numbers hwell fuel' result field' h' => ?_⟩
    · cases decodeProgressMessage_unique hout hleft
    · obtain ⟨fuel'', field'', hreads, hsets⟩ := decodeProgressMessage_wellFormed hwell field
      cases decodeProgressMessage_unique hreads h'
      exact And.intro rfl hsets

/-- A message of type 2 with all its fields. -/
theorem decodes_complete : Decodes (wide "1: 2 2: 4854 3: 0 4: 0") fun _ => 0 :=
  (decodes_iff (by decide) _).mpr
    (.type (by decide) (.last (k := 1) (by decide) (by decide)))

/-- The message ends after the second field, and the type asks for two more. -/
theorem not_decodes_short : ¬Decodes (wide "1: 0 2: 5") fun _ => 0 :=
  fun h => h.inside 3 (by rfl)

end Baulk.Archive.Msi
