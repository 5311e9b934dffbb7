import Baulk.Core.Wide
import Baulk.Support.ComponentWalk
import Mathlib.Data.List.DropRight

/-!
# Command lines

A process gets its arguments as one text.  `EscapeArgv` puts them together with quotes and
backslashes, for the programs that `baulk-exec` and `baulk-update` start; `Tokenizer` takes
such a text apart again.
-/

namespace Baulk.Cli

open Support (components components_append_cons components_of_forall_not_sep mem_components)

/-! ## Putting a command line together -/

/-- A blank or a tab, for which an argument is quoted. -/
def isBlank (c : WChar) : Bool :=
  c == 0x20 || c == 0x09

/-- The loop over the characters of an argument, with the number of backslashes just before.
In quotes the backslashes at the end are doubled. -/
def escapeLoop (hasspace : Bool) : Nat → WString → WString
  | slashes, [] => if hasspace then List.replicate slashes 0x5C ++ [0x22] else []
  | slashes, c :: s =>
      if c = 0x5C then c :: escapeLoop hasspace (slashes + 1) s
      else if c = 0x22 then
        List.replicate slashes 0x5C ++ 0x5C :: c :: escapeLoop hasspace 0 s
      else c :: escapeLoop hasspace 0 s

/-- How many characters an argument has once it is escaped, as it is counted beforehand. -/
def escapedLength (s : WString) : Nat :=
  s.length + s.countP (fun c => c == 0x22 || c == 0x5C) + if s.any isBlank then 2 else 0

/-- `argv_escape_internal`, without the blank before the argument. -/
def argvEscape (s : WString) : WString :=
  if s = [] then wide "\"\""
  else if escapedLength s = s.length then s
  else if s.any isBlank then 0x22 :: escapeLoop true 0 s
  else escapeLoop false 0 s

/-- `Append`. -/
def appendArgv (saver s : WString) : WString :=
  if saver = [] then argvEscape s else saver ++ 0x20 :: argvEscape s

/-- The command line of `Executor::Exec`: `Assign` for the first argument, `Append` for the
others. -/
def commandLine : List WString → WString
  | [] => []
  | arg0 :: args => args.foldl appendArgv (argvEscape arg0)

/-- One argument of `AssignFull`, whose length was counted in 32 bits. -/
def assignFullStep (saver s : WString) : WString :=
  (if saver = [] then saver else saver ++ [0x20]) ++
    if s = [] then wide "\"\""
    else if escapedLength s % 2 ^ 32 = s.length then s
    else if s.any isBlank then 0x22 :: escapeLoop true 0 s
    else escapeLoop false 0 s

/-- `AssignFull` on a new object. -/
def assignFull (args : List WString) : WString :=
  args.foldl assignFullStep []

/-! ## Taking it apart -/

def isWhitespace (c : WChar) : Bool :=
  c == 0x20 || c == 0x09 || c == 0x0D || c == 0x0A

def isWhitespaceOrNull (c : WChar) : Bool :=
  isWhitespace c || c == 0

def stripTrailingWhitespace (s : WString) : WString :=
  s.rdropWhile isWhitespace

/-- `parseBackslash` behind a first backslash: what is left to read, and the token. -/
def parseBackslash (src token : WString) : WString × WString :=
  let count := (src.takeWhile (· == 0x5C)).length + 1
  match src.dropWhile (· == 0x5C) with
  | [] => ([], token ++ List.replicate count 0x5C)
  | c :: rest =>
      if c = 0x22 then
        if count % 2 = 0 then (c :: rest, token ++ List.replicate (count / 2) 0x5C)
        else (rest, token ++ List.replicate (count / 2) 0x5C ++ [0x22])
      else (c :: rest, token ++ List.replicate count 0x5C)

theorem length_parseBackslash_le (src token : WString) :
    (parseBackslash src token).1.length ≤ src.length := by
  have hdrop := (List.dropWhile_suffix (l := src) (· == 0x5C)).length_le
  unfold parseBackslash
  cases hrest : src.dropWhile (· == 0x5C) with
  | nil => exact Nat.zero_le _
  | cons c rest =>
      rw [hrest, List.length_cons] at hdrop
      dsimp only
      split_ifs
      · exact hdrop
      · exact Nat.le_of_succ_le hdrop
      · exact hdrop

/-- The state of `Tokenize`. -/
inductive TokenState where
  | init
  | unquoted
  | quoted
  deriving DecidableEq

/-- The loop of `Tokenize`, with the token that is being read. -/
def tokenizeLoop (state : TokenState) (token : WString) : WString → List WString
  | [] => [token]
  | c :: rest =>
      match state with
      | .init =>
          if isWhitespaceOrNull c then tokenizeLoop .init token rest
          else if c = 0x22 then tokenizeLoop .quoted token rest
          else if c = 0x5C then
            tokenizeLoop .unquoted (parseBackslash rest token).2 (parseBackslash rest token).1
          else tokenizeLoop .unquoted (token ++ [c]) rest
      | .unquoted =>
          if isWhitespaceOrNull c then token :: tokenizeLoop .init [] rest
          else if c = 0x22 then tokenizeLoop .quoted token rest
          else if c = 0x5C then
            tokenizeLoop .unquoted (parseBackslash rest token).2 (parseBackslash rest token).1
          else tokenizeLoop .unquoted (token ++ [c]) rest
      | .quoted =>
          if c = 0x22 then
            if rest.head? = some 0x22 then tokenizeLoop .quoted (token ++ [0x22]) rest.tail
            else tokenizeLoop .unquoted token rest
          else if c = 0x5C then
            tokenizeLoop .quoted (parseBackslash rest token).2 (parseBackslash rest token).1
          else tokenizeLoop .quoted (token ++ [c]) rest
  termination_by src => src.length
  decreasing_by
    all_goals
      simp only [List.length_cons, List.length_tail]
      have := length_parseBackslash_le rest token
      omega

/-- `Tokenizer::Tokenize`. -/
def tokenize (cmdline : WString) : Option (List WString) :=
  let src := stripTrailingWhitespace cmdline
  if src = [] then none else some (tokenizeLoop .init [] src)

/-! ## Runs of backslashes -/

section Backslashes

variable {n : Nat} {t token : WString}

theorem takeWhile_backslashes (h : t.head? ≠ some 0x5C) :
    (List.replicate n 0x5C ++ t).takeWhile (· == 0x5C) = List.replicate n (0x5C : WChar) := by
  rw [List.takeWhile_append_of_pos fun c hc => beq_iff_eq.mpr (List.eq_of_mem_replicate hc)]
  cases t with
  | nil => exact List.append_nil _
  | cons c t =>
      have hnone : (c :: t).takeWhile (· == 0x5C) = [] :=
        List.takeWhile_cons_of_neg fun heq => h (congrArg some (beq_iff_eq.mp heq))
      rw [hnone, List.append_nil]

theorem dropWhile_backslashes (h : t.head? ≠ some 0x5C) :
    (List.replicate n 0x5C ++ t).dropWhile (· == 0x5C) = t := by
  rw [List.dropWhile_append_of_pos fun c hc => beq_iff_eq.mpr (List.eq_of_mem_replicate hc)]
  cases t with
  | nil => rfl
  | cons c t =>
      exact List.dropWhile_cons_of_neg fun heq => h (congrArg some (beq_iff_eq.mp heq))

/-- Backslashes that do not stand before a quote are read as they are. -/
theorem parseBackslash_plain (hslash : t.head? ≠ some 0x5C) (hquote : t.head? ≠ some 0x22) :
    parseBackslash (List.replicate n 0x5C ++ t) token =
      (t, token ++ List.replicate (n + 1) 0x5C) := by
  unfold parseBackslash
  rw [takeWhile_backslashes hslash, dropWhile_backslashes hslash, List.length_replicate]
  cases t with
  | nil => rfl
  | cons c t => exact if_neg fun heq => hquote (congrArg some heq)

theorem parseBackslash_odd (n : Nat) (t token : WString) :
    parseBackslash (List.replicate (2 * n) 0x5C ++ 0x22 :: t) token =
      (t, token ++ List.replicate n 0x5C ++ [0x22]) := by
  have hslash : ((0x22 : WChar) :: t).head? ≠ some 0x5C := by simp
  have hodd : ¬ (2 * n + 1) % 2 = 0 := by omega
  have hhalf : (2 * n + 1) / 2 = n := by omega
  unfold parseBackslash
  rw [takeWhile_backslashes hslash, dropWhile_backslashes hslash, List.length_replicate]
  simp only [if_true, if_neg hodd, hhalf]

/-- An even number of backslashes stands for half as many before a quote. -/
theorem parseBackslash_even (n : Nat) (t token : WString) :
    parseBackslash (List.replicate (2 * n + 1) 0x5C ++ 0x22 :: t) token =
      (0x22 :: t, token ++ List.replicate (n + 1) 0x5C) := by
  have hslash : ((0x22 : WChar) :: t).head? ≠ some 0x5C := by simp
  have heven : (2 * n + 1 + 1) % 2 = 0 := by omega
  have hhalf : (2 * n + 1 + 1) / 2 = n + 1 := by omega
  unfold parseBackslash
  rw [takeWhile_backslashes hslash, dropWhile_backslashes hslash, List.length_replicate]
  simp only [if_true, if_pos heven, hhalf]

theorem tokenizeLoop_backslash {state : TokenState} (h : state ≠ .init) (src : WString) :
    tokenizeLoop state token (0x5C :: src) =
      tokenizeLoop state (parseBackslash src token).2 (parseBackslash src token).1 := by
  have hwhite : isWhitespaceOrNull 0x5C = false := by decide
  have hquote : ¬ (0x5C : WChar) = 0x22 := by decide
  cases state with
  | init => exact absurd rfl h
  | unquoted => rw [tokenizeLoop, hwhite, if_neg Bool.false_ne_true, if_neg hquote, if_pos rfl]
  | quoted => rw [tokenizeLoop, if_neg hquote, if_pos rfl]

theorem tokenizeLoop_backslashes {state : TokenState} (h : state ≠ .init)
    (hslash : t.head? ≠ some 0x5C) (hquote : t.head? ≠ some 0x22) :
    tokenizeLoop state token (List.replicate n 0x5C ++ t) =
      tokenizeLoop state (token ++ List.replicate n 0x5C) t := by
  cases n with
  | zero => rw [List.replicate_zero, List.append_nil, List.nil_append]
  | succ n =>
      rw [List.replicate_succ, List.cons_append, tokenizeLoop_backslash h,
        parseBackslash_plain hslash hquote, List.replicate_succ]

theorem tokenizeLoop_escapedQuote {state : TokenState} (h : state ≠ .init) (n : Nat)
    (t token : WString) :
    tokenizeLoop state token (List.replicate n 0x5C ++ (List.replicate n 0x5C ++
        0x5C :: 0x22 :: t)) =
      tokenizeLoop state (token ++ List.replicate n 0x5C ++ [0x22]) t := by
  have hrun : List.replicate n (0x5C : WChar) ++ (List.replicate n 0x5C ++ 0x5C :: 0x22 :: t) =
      0x5C :: (List.replicate (2 * n) 0x5C ++ 0x22 :: t) := by
    rw [← List.append_assoc, List.replicate_append_replicate, ← Nat.two_mul, List.append_cons,
      ← List.replicate_succ', List.replicate_succ, List.cons_append]
  rw [hrun, tokenizeLoop_backslash h, parseBackslash_odd]

end Backslashes

/-! ## One argument -/

/-- What stands behind an argument is empty or starts with white space. -/
def AtGap (rest : WString) : Prop :=
  ∀ c, rest.head? = some c → isWhitespace c = true

theorem atGap_nil : AtGap [] := nofun

theorem atGap_cons {c : WChar} (h : isWhitespace c = true) (s : WString) : AtGap (c :: s) := by
  rintro d ⟨⟩
  exact h

theorem AtGap.head_ne {rest : WString} (h : AtGap rest) {c : WChar}
    (hc : isWhitespace c = false) : rest.head? ≠ some c := by
  intro hhead
  exact Bool.false_ne_true (hc.symm.trans (h c hhead))

/-- The state in which the escaped text of an argument is read. -/
def ReadIn (state : TokenState) (hasspace : Bool) (s : WString) : Prop :=
  state = .quoted ∧ hasspace = true ∨
    state = .unquoted ∧ hasspace = false ∧ ∀ c ∈ s, isWhitespaceOrNull c = false

theorem ReadIn.ne_init {state : TokenState} {hasspace : Bool} {s : WString}
    (h : ReadIn state hasspace s) : state ≠ .init := by
  rcases h with ⟨rfl, -⟩ | ⟨rfl, -⟩
  · exact TokenState.noConfusion
  · exact TokenState.noConfusion

theorem ReadIn.tail {state : TokenState} {hasspace : Bool} {c : WChar} {s : WString}
    (h : ReadIn state hasspace (c :: s)) : ReadIn state hasspace s :=
  h.imp_right fun h => ⟨h.1, h.2.1, fun d hd => h.2.2 d (List.mem_cons_of_mem c hd)⟩

theorem ReadIn.char {state : TokenState} {hasspace : Bool} {c : WChar} {s : WString}
    (h : ReadIn state hasspace (c :: s)) (hslash : c ≠ 0x5C) (hquote : c ≠ 0x22)
    (token t : WString) :
    tokenizeLoop state token (c :: t) = tokenizeLoop state (token ++ [c]) t := by
  rcases h with ⟨rfl, -⟩ | ⟨rfl, -, hwhite⟩
  · rw [tokenizeLoop, if_neg hquote, if_neg hslash]
  · rw [tokenizeLoop, hwhite c List.mem_cons_self, if_neg Bool.false_ne_true, if_neg hquote,
      if_neg hslash]

theorem ReadIn.close {state : TokenState} {hasspace : Bool} {rest : WString}
    (h : ReadIn state hasspace []) (hrest : AtGap rest) (n : Nat) (token : WString) :
    tokenizeLoop state token (List.replicate n 0x5C ++ (escapeLoop hasspace n [] ++ rest)) =
      tokenizeLoop .unquoted (token ++ List.replicate n 0x5C) rest := by
  rcases h with ⟨rfl, rfl⟩ | ⟨rfl, rfl, -⟩
  · have hquote : rest.head? ≠ some 0x22 := hrest.head_ne (by decide)
    have hend : tokenizeLoop .quoted (token ++ List.replicate n 0x5C) (0x22 :: rest) =
        tokenizeLoop .unquoted (token ++ List.replicate n 0x5C) rest := by
      rw [tokenizeLoop, if_pos rfl, if_neg hquote]
    rw [escapeLoop, if_pos rfl, ← hend]
    cases n with
    | zero => rw [List.replicate_zero, List.append_nil]; rfl
    | succ n =>
        have hrun : List.replicate (n + 1) (0x5C : WChar) ++
            (List.replicate (n + 1) 0x5C ++ [0x22] ++ rest) =
              0x5C :: (List.replicate (2 * n + 1) 0x5C ++ 0x22 :: rest) := by
          rw [List.append_assoc, ← List.append_assoc, List.replicate_append_replicate,
            show n + 1 + (n + 1) = 2 * n + 1 + 1 by omega, List.replicate_succ]
          rfl
        rw [hrun, tokenizeLoop_backslash TokenState.noConfusion, parseBackslash_even]
  · rw [escapeLoop, if_neg Bool.false_ne_true, List.nil_append]
    exact tokenizeLoop_backslashes TokenState.noConfusion (hrest.head_ne (by decide))
      (hrest.head_ne (by decide))

theorem ReadIn.escapeLoop {state : TokenState} {hasspace : Bool} {s rest : WString}
    (h : ReadIn state hasspace s) (hrest : AtGap rest) (n : Nat) (token : WString) :
    tokenizeLoop state token
        (List.replicate n 0x5C ++ (escapeLoop hasspace n s ++ rest)) =
      tokenizeLoop .unquoted (token ++ List.replicate n 0x5C ++ s) rest := by
  induction s generalizing n token with
  | nil => rw [h.close hrest, List.append_nil]
  | cons c s ih =>
      by_cases hslash : c = 0x5C
      · -- one more backslash in the run
        subst hslash
        rw [Cli.escapeLoop, if_pos rfl, List.cons_append, List.append_cons,
          ← List.replicate_succ', ih h.tail, List.replicate_succ', ← List.append_assoc,
          List.append_assoc _ [_]]
        rfl
      · by_cases hquote : c = 0x22
        · subst hquote
          have hread := ih h.tail 0 (token ++ List.replicate n 0x5C ++ [0x22])
          rw [List.replicate_zero, List.append_nil, List.nil_append] at hread
          rw [Cli.escapeLoop, if_neg hslash, if_pos rfl, List.append_assoc, List.cons_append,
            List.cons_append, tokenizeLoop_escapedQuote h.ne_init, hread, List.append_assoc _ [_]]
          rfl
        · have hread := ih h.tail 0 (token ++ List.replicate n 0x5C ++ [c])
          rw [List.replicate_zero, List.append_nil, List.nil_append] at hread
          rw [Cli.escapeLoop, if_neg hslash, if_neg hquote, List.cons_append,
            tokenizeLoop_backslashes h.ne_init (by simpa using hslash) (by simpa using hquote),
            h.char hslash hquote, hread, List.append_assoc _ [_]]
          rfl

/-- Without blanks an argument may be copied as it is, or go through the loop. -/
theorem argvEscape_unquoted {s : WString} (hnil : s ≠ []) (h : s.any isBlank = false) :
    argvEscape s = escapeLoop false 0 s := by
  have hnone : ¬ s.any isBlank = true := by rw [h]; exact Bool.false_ne_true
  unfold argvEscape
  rw [if_neg hnil, if_neg hnone]
  split_ifs with hlength
  · have hplain : s.countP (fun c => c == 0x22 || c == 0x5C) = 0 := by
      unfold escapedLength at hlength
      omega
    clear hlength hnone hnil h
    rw [List.countP_eq_zero] at hplain
    induction s with
    | nil => rfl
    | cons c s ih =>
        have hc := hplain c List.mem_cons_self
        rw [Bool.or_eq_true, beq_iff_eq, beq_iff_eq, not_or] at hc
        rw [escapeLoop, if_neg hc.2, if_neg hc.1,
          ← ih fun d hd => hplain d (List.mem_cons_of_mem c hd)]
  · rfl

theorem argvEscape_quoted {s : WString} (h : s.any isBlank = true) :
    argvEscape s = 0x22 :: escapeLoop true 0 s := by
  have hnil : s ≠ [] := by
    rintro rfl
    exact Bool.false_ne_true h
  have hlength : ¬ escapedLength s = s.length := by
    unfold escapedLength
    rw [if_pos h]
    omega
  unfold argvEscape
  rw [if_neg hnil, if_neg hlength, if_pos h]

/-! ## Words and gaps -/

/-- A part of a command line that is read as one token, whatever stands behind it. -/
structure Reads (word token : WString) : Prop where
  head : ∃ c, word.head? = some c ∧ isWhitespace c = false
  last : ∃ c, word.getLast? = some c ∧ isWhitespace c = false
  reads : ∀ rest, AtGap rest →
    tokenizeLoop .init [] (word ++ rest) = tokenizeLoop .unquoted token rest

/-- A command line of words and white space, with its tokens. -/
inductive Line : WString → List WString → Prop where
  | nil : Line [] []
  | gap {c : WChar} {s : WString} {tokens : List WString} (hc : isWhitespace c = true)
      (h : Line s tokens) : Line (c :: s) tokens
  | word {w token s : WString} {tokens : List WString} (hw : Reads w token) (hs : AtGap s)
      (h : Line s tokens) : Line (w ++ s) (token :: tokens)

/-- White space at the end of a text is taken off before its front is looked at. -/
theorem stripTrailingWhitespace_append (a s : WString) :
    stripTrailingWhitespace (a ++ s) =
      if stripTrailingWhitespace s = [] then stripTrailingWhitespace a
      else a ++ stripTrailingWhitespace s := by
  unfold stripTrailingWhitespace List.rdropWhile
  simp only [List.reverse_append, List.dropWhile_append, List.reverse_eq_nil_iff,
    List.isEmpty_iff]
  split_ifs
  · rfl
  · rw [List.reverse_append, List.reverse_reverse]

theorem Reads.strip {w token : WString} (h : Reads w token) : stripTrailingWhitespace w = w := by
  obtain ⟨c, hlast, hc⟩ := h.last
  unfold stripTrailingWhitespace
  rw [List.rdropWhile_eq_self_iff]
  intro hnil hwhite
  rw [List.getLast?_eq_some_getLast hnil] at hlast
  rw [Option.some.inj hlast, hc] at hwhite
  exact Bool.false_ne_true hwhite

theorem AtGap.strip {s : WString} (h : AtGap s) : AtGap (stripTrailingWhitespace s) := by
  intro c hc
  obtain ⟨t, ht⟩ := List.rdropWhile_prefix isWhitespace (l := s)
  refine h c ?_
  rw [← ht, List.head?_append]
  unfold stripTrailingWhitespace at hc
  rw [hc]
  rfl

/-- Without the white space at its end a line has the same tokens. -/
theorem Line.strip {s : WString} {tokens : List WString} (h : Line s tokens) :
    Line (stripTrailingWhitespace s) tokens := by
  induction h with
  | nil => exact .nil
  | @gap c s tokens hc h ih =>
      have hsplit := stripTrailingWhitespace_append [c] s
      rw [List.singleton_append] at hsplit
      rw [hsplit]
      split_ifs with hnil
      · have hall : stripTrailingWhitespace [c] = [] := by
          unfold stripTrailingWhitespace
          rw [List.rdropWhile_singleton, if_pos hc]
        rw [hall, ← hnil]
        exact ih
      · exact .gap hc ih
  | @word w token s tokens hw hs h ih =>
      have hsplit : stripTrailingWhitespace (w ++ s) = w ++ stripTrailingWhitespace s := by
        rw [stripTrailingWhitespace_append]
        split_ifs with hnil
        · rw [hw.strip, hnil, List.append_nil]
        · rfl
      rw [hsplit]
      exact .word hw hs.strip ih

/-- Between two tokens, and behind a token, a line without white space at its end is read as its
tokens. -/
theorem Line.reads {s : WString} {tokens : List WString} (h : Line s tokens)
    (htrim : stripTrailingWhitespace s = s) :
    (s ≠ [] → tokenizeLoop .init [] s = tokens) ∧
      (AtGap s → ∀ token, tokenizeLoop .unquoted token s = token :: tokens) := by
  have htail {a s : WString} (hsplit : stripTrailingWhitespace (a ++ s) = a ++ s)
      (hnil : s ≠ []) : stripTrailingWhitespace s = s := by
    rw [stripTrailingWhitespace_append] at hsplit
    split_ifs at hsplit with hempty
    · -- then the text would be shorter than its front
      have hle := (List.rdropWhile_prefix isWhitespace (l := a)).length_le
      have hlen := congrArg List.length hsplit
      rw [List.length_append] at hlen
      have hpos := List.length_pos_iff.mpr hnil
      unfold stripTrailingWhitespace at hlen
      omega
    · exact List.append_cancel_left hsplit
  induction h with
  | nil =>
      refine ⟨fun h => absurd rfl h, fun _ token => ?_⟩
      rw [tokenizeLoop]
  | @gap c s tokens hc h ih =>
      have hwhite : isWhitespaceOrNull c = true := by
        rw [isWhitespaceOrNull, hc, Bool.true_or]
      have hnil : s ≠ [] := by
        rintro rfl
        unfold stripTrailingWhitespace at htrim
        rw [List.rdropWhile_singleton, if_pos hc] at htrim
        cases htrim
      have hrest := (ih (htail (a := [c]) htrim hnil)).1 hnil
      constructor
      · intro _
        rw [tokenizeLoop, if_pos hwhite, hrest]
      · intro _ token
        rw [tokenizeLoop, if_pos hwhite, hrest]
  | @word w token s tokens hw hs h ih =>
      obtain ⟨c, hhead, hc⟩ := hw.head
      have hrest : tokenizeLoop .unquoted token s = token :: tokens := by
        by_cases hnil : s = []
        · subst hnil
          exact (ih rfl).2 atGap_nil token
        · exact (ih (htail htrim hnil)).2 hs token
      constructor
      · intro _
        rw [hw.reads s hs, hrest]
      · intro hgap
        have hhead' : (w ++ s).head? = some c := by
          rw [List.head?_append, hhead]
          rfl
        exact absurd hhead' (hgap.head_ne hc)

theorem tokenizeLoop_ne_nil (state : TokenState) (token src : WString) :
    tokenizeLoop state token src ≠ [] := by
  fun_induction tokenizeLoop state token src with
  | case1 => exact List.cons_ne_nil _ _
  | case6 => exact List.cons_ne_nil _ _
  | _ => assumption

theorem tokenize_of_line {s : WString} {tokens : List WString} (h : Line s tokens) :
    tokenize s = if tokens = [] then none else some tokens := by
  have hstrip := h.strip
  have htrim : stripTrailingWhitespace (stripTrailingWhitespace s) =
      stripTrailingWhitespace s := List.rdropWhile_idempotent _ _
  unfold tokenize
  dsimp only
  by_cases hnil : stripTrailingWhitespace s = []
  · have hnone : tokens = [] := by
      rw [hnil] at hstrip
      generalize hempty : ([] : WString) = t at hstrip
      cases hstrip with
      | nil => rfl
      | gap => cases hempty
      | word hw =>
          obtain ⟨c, hc, -⟩ := hw.head
          rw [(List.append_eq_nil_iff.mp hempty.symm).1] at hc
          cases hc
    rw [if_pos hnil, if_pos hnone]
  · have hread := (hstrip.reads htrim).1 hnil
    have hsome : tokens ≠ [] := by
      rintro rfl
      exact tokenizeLoop_ne_nil _ _ _ hread
    rw [if_neg hnil, if_neg hsome, hread]

/-! ## The command line of the arguments -/

/-- White space that does not make an argument quoted. -/
def isBreak (c : WChar) : Bool :=
  c == 0x0D || c == 0x0A

/-- The arguments that an argument is read as. -/
def reread (s : WString) : List WString :=
  if s = [] ∨ s.any isBlank = true then [s]
  else components isBreak s

theorem isWhitespace_eq (c : WChar) : isWhitespace c = (isBlank c || isBreak c) := by
  unfold isWhitespace isBlank isBreak
  rw [Bool.or_assoc]

theorem escapeLoop_head (hasspace : Bool) (n : Nat) (c : WChar) (s : WString) :
    ∃ d, (escapeLoop hasspace n (c :: s)).head? = some d ∧ (d = c ∨ d = 0x5C) := by
  rw [escapeLoop]
  split_ifs
  · exact ⟨c, rfl, .inl rfl⟩
  · cases n with
    | zero => exact ⟨0x5C, rfl, .inr rfl⟩
    | succ n => exact ⟨0x5C, rfl, .inr rfl⟩
  · exact ⟨c, rfl, .inl rfl⟩

/-- The last character of an argument that is not quoted stands at the end of its escaped
text. -/
theorem escapeLoop_concat (n : Nat) (s : WString) (c : WChar) :
    ∃ front, escapeLoop false n (s ++ [c]) = front ++ [c] := by
  induction s generalizing n with
  | nil =>
      rw [List.nil_append, escapeLoop]
      split_ifs
      · exact ⟨[], rfl⟩
      · exact ⟨List.replicate n 0x5C ++ [0x5C], by rw [List.append_assoc]; rfl⟩
      · exact ⟨[], rfl⟩
  | cons d s ih =>
      rw [List.cons_append, escapeLoop]
      split_ifs
      · obtain ⟨front, hfront⟩ := ih (n + 1)
        exact ⟨d :: front, by rw [hfront]; rfl⟩
      · obtain ⟨front, hfront⟩ := ih 0
        exact ⟨List.replicate n 0x5C ++ 0x5C :: d :: front, by rw [hfront, List.append_assoc]; rfl⟩
      · obtain ⟨front, hfront⟩ := ih 0
        exact ⟨d :: front, by rw [hfront]; rfl⟩

/-- The text behind a character that ends a run of backslashes. -/
theorem escapeLoop_append_cons {c : WChar} (hslash : c ≠ 0x5C) (hquote : c ≠ 0x22) (n : Nat)
    (a b : WString) :
    escapeLoop false n (a ++ c :: b) = escapeLoop false n a ++ c :: escapeLoop false 0 b := by
  induction a generalizing n with
  | nil =>
      rw [List.nil_append, escapeLoop, escapeLoop, if_neg Bool.false_ne_true, if_neg hslash,
        if_neg hquote, List.nil_append]
  | cons d a ih =>
      rw [List.cons_append, escapeLoop, escapeLoop, ih, ih]
      split_ifs
      · rfl
      · rw [List.append_assoc]
        rfl
      · rfl

theorem reads_quoted {s : WString} : Reads (0x22 :: escapeLoop true 0 s) s := by
  refine ⟨⟨0x22, rfl, by decide⟩, ⟨0x22, ?_, by decide⟩, fun rest hrest => ?_⟩
  · have hlast (n : Nat) : (escapeLoop true n s).getLast? = some 0x22 := by
      induction s generalizing n with
      | nil => rw [escapeLoop, if_pos rfl, List.getLast?_concat]
      | cons c s ih =>
          rw [escapeLoop]
          split_ifs
          · rw [List.getLast?_cons, ih]
            rfl
          · rw [List.getLast?_append, List.getLast?_cons, List.getLast?_cons, ih]
            rfl
          · rw [List.getLast?_cons, ih]
            rfl
    rw [List.getLast?_cons, hlast]
    rfl
  · have hread : ReadIn .quoted true s := .inl ⟨rfl, rfl⟩
    rw [List.cons_append, tokenizeLoop, if_neg (by decide), if_pos rfl]
    exact hread.escapeLoop hrest 0 []

/-- At the start of a token quotes and backslashes are read as inside it. -/
theorem tokenizeLoop_init {c : WChar} (h : isWhitespaceOrNull c = false) (t : WString) :
    tokenizeLoop .init [] (c :: t) = tokenizeLoop .unquoted [] (c :: t) := by
  rw [tokenizeLoop, tokenizeLoop, h, if_neg Bool.false_ne_true, if_neg Bool.false_ne_true]

theorem reads_unquoted {s : WString} (hnil : s ≠ [])
    (hwhite : ∀ c ∈ s, isWhitespaceOrNull c = false) : Reads (escapeLoop false 0 s) s := by
  have hnowhite {c : WChar} (hc : isWhitespaceOrNull c = false) : isWhitespace c = false :=
    (Bool.or_eq_false_iff.mp hc).1
  have hhead : ∃ d t, escapeLoop false 0 s = d :: t ∧ isWhitespaceOrNull d = false := by
    obtain ⟨c, s, rfl⟩ := List.exists_cons_of_ne_nil hnil
    obtain ⟨d, hd, hcase⟩ := escapeLoop_head false 0 c s
    obtain ⟨t, ht⟩ := List.head?_eq_some_iff.mp hd
    refine ⟨d, t, ht, ?_⟩
    rcases hcase with rfl | rfl
    · exact hwhite d List.mem_cons_self
    · decide
  obtain ⟨d, t, hd, hdwhite⟩ := hhead
  refine ⟨⟨d, by rw [hd]; rfl, hnowhite hdwhite⟩, ?_, fun rest hrest => ?_⟩
  · obtain ⟨s, c, rfl⟩ := List.eq_nil_or_concat s |>.resolve_left hnil
    rw [List.concat_eq_append] at hwhite ⊢
    obtain ⟨front, hfront⟩ := escapeLoop_concat 0 s c
    refine ⟨c, ?_, hnowhite (hwhite c (List.mem_append_right _ List.mem_cons_self))⟩
    rw [hfront, List.getLast?_concat]
  · have hread : ReadIn .unquoted false s := .inr ⟨rfl, rfl, hwhite⟩
    have hloop := hread.escapeLoop hrest 0 []
    rw [List.replicate_zero, List.nil_append, List.append_nil, List.nil_append, hd,
      List.cons_append] at hloop
    rw [hd, List.cons_append, tokenizeLoop_init hdwhite, hloop]

/-- The text of an argument that is not quoted, in front of a line: white space in it separates
words. -/
theorem Line.escapeLoop {s rest : WString} {tokens : List WString} (h : Line rest tokens)
    (hrest : AtGap rest) (hblank : s.any isBlank = false) (hnul : (0 : WChar) ∉ s) :
    Line (Cli.escapeLoop false 0 s ++ rest) (components isBreak s ++ tokens) := by
  induction hlen : s.length using Nat.strong_induction_on generalizing s rest tokens with
  | h len ih =>
      subst hlen
      by_cases hbreak : ∃ c ∈ s, isBreak c = true
      · obtain ⟨c, hc, hcbreak⟩ := hbreak
        obtain ⟨a, b, rfl⟩ := List.append_of_mem hc
        rw [List.any_append, List.any_cons, Bool.or_eq_false_iff, Bool.or_eq_false_iff] at hblank
        rw [List.mem_append, List.mem_cons, not_or, not_or] at hnul
        have hslash : c ≠ 0x5C := by rintro rfl; cases hcbreak
        have hquote : c ≠ 0x22 := by rintro rfl; cases hcbreak
        have hwhite : isWhitespace c = true := by
          rw [isWhitespace_eq, hcbreak, Bool.or_true]
        have hb := ih b.length (by rw [List.length_append, List.length_cons]; omega) h hrest
          hblank.2.2 hnul.2.2 rfl
        have ha := ih a.length (by rw [List.length_append, List.length_cons]; omega)
          (hb.gap hwhite) (atGap_cons hwhite _) hblank.1 hnul.1 rfl
        rw [escapeLoop_append_cons hslash hquote, components_append_cons a b hcbreak,
          List.append_assoc, List.append_assoc]
        exact ha
      · have hnone : ∀ c ∈ s, isBreak c = false := fun c hc =>
          Bool.eq_false_of_not_eq_true fun hcbreak => hbreak ⟨c, hc, hcbreak⟩
        by_cases hnil : s = []
        · subst hnil
          exact h
        · rw [components_of_forall_not_sep hnil hnone]
          refine .word (reads_unquoted hnil fun c hc => ?_) hrest h
          have hc0 : (c == 0) = false := beq_eq_false_iff_ne.mpr fun h => hnul (h ▸ hc)
          have hcblank : isBlank c = false :=
            Bool.eq_false_of_not_eq_true (List.any_eq_false.mp hblank c hc)
          rw [isWhitespaceOrNull, isWhitespace_eq, hcblank, hnone c hc, hc0]
          rfl

theorem Line.argvEscape {s rest : WString} {tokens : List WString} (h : Line rest tokens)
    (hrest : AtGap rest) (hnul : (0 : WChar) ∉ s) :
    Line (Cli.argvEscape s ++ rest) (reread s ++ tokens) := by
  by_cases hnil : s = []
  · subst hnil
    have hempty : Reads (wide "\"\"") [] :=
      reads_quoted (s := [])
    exact .word hempty hrest h
  · by_cases hblank : s.any isBlank = true
    · rw [argvEscape_quoted hblank, reread, if_pos (.inr hblank)]
      exact .word reads_quoted hrest h
    · have hplain := Bool.eq_false_of_not_eq_true hblank
      rw [argvEscape_unquoted hnil hplain, reread, if_neg (not_or.mpr ⟨hnil, hblank⟩)]
      exact h.escapeLoop hrest hplain hnul

theorem argvEscape_ne_nil (s : WString) : argvEscape s ≠ [] := by
  by_cases hnil : s = []
  · rw [argvEscape, if_pos hnil]
    decide
  · by_cases hblank : s.any isBlank = true
    · rw [argvEscape_quoted hblank]
      exact List.cons_ne_nil _ _
    · rw [argvEscape_unquoted hnil (Bool.eq_false_of_not_eq_true hblank)]
      obtain ⟨c, s, rfl⟩ := List.exists_cons_of_ne_nil hnil
      obtain ⟨d, hd, -⟩ := escapeLoop_head false 0 c s
      intro h
      rw [h] at hd
      cases hd

theorem foldl_appendArgv {saver : WString} (h : saver ≠ []) (args : List WString) :
    args.foldl appendArgv saver = saver ++ args.flatMap fun s => 0x20 :: argvEscape s := by
  induction args generalizing saver with
  | nil => exact (List.append_nil saver).symm
  | cons s args ih =>
      have hne : saver ++ 0x20 :: argvEscape s ≠ [] := by simp
      rw [List.foldl_cons, appendArgv, if_neg h, ih hne, List.append_assoc, List.flatMap_cons]

theorem line_behind {args : List WString} (hnul : ∀ s ∈ args, (0 : WChar) ∉ s) :
    Line (args.flatMap fun s => 0x20 :: argvEscape s) (args.flatMap reread) ∧
      AtGap (args.flatMap fun s => 0x20 :: argvEscape s) := by
  induction args with
  | nil => exact ⟨.nil, atGap_nil⟩
  | cons s args ih =>
      obtain ⟨hline, hgap⟩ := ih fun t ht => hnul t (List.mem_cons_of_mem s ht)
      rw [List.flatMap_cons, List.flatMap_cons, List.cons_append]
      have hblank : isWhitespace 0x20 = true := by decide
      exact ⟨(hline.argvEscape hgap (hnul s List.mem_cons_self)).gap hblank,
        atGap_cons hblank _⟩

theorem tokenize_commandLine {args : List WString} (hnul : ∀ s ∈ args, (0 : WChar) ∉ s) :
    tokenize (commandLine args) =
      if args.flatMap reread = [] then none else some (args.flatMap reread) := by
  apply tokenize_of_line
  cases args with
  | nil => exact .nil
  | cons s args =>
      obtain ⟨hline, hgap⟩ := line_behind fun t ht => hnul t (List.mem_cons_of_mem s ht)
      rw [commandLine, foldl_appendArgv (argvEscape_ne_nil s), List.flatMap_cons]
      exact hline.argvEscape hgap (hnul s List.mem_cons_self)

/-- An argument that is not taken apart: it is quoted, or has no line break. -/
def Unbroken (s : WString) : Prop :=
  s.any isBlank = true ∨ s.any isBreak = false

instance : DecidablePred Unbroken := fun _ => inferInstanceAs (Decidable (_ ∨ _))

/-- The argument itself is among those it is read as only if it is the only one. -/
theorem unbroken_of_mem_reread {s t : WString} (h : s ∈ reread t) : Unbroken s := by
  unfold reread at h
  split_ifs at h with hcase
  · rw [List.mem_singleton] at h
    subst h
    rcases hcase with rfl | hblank
    · exact .inr rfl
    · exact .inl hblank
  · right
    rw [List.any_eq_false]
    intro c hc
    rw [(mem_components h).2 c hc]
    exact Bool.false_ne_true

theorem reread_of_unbroken {s : WString} (h : Unbroken s) : reread s = [s] := by
  unfold reread
  split_ifs with hcase
  · rfl
  · rw [not_or] at hcase
    have hbreak := h.resolve_left hcase.2
    exact components_of_forall_not_sep hcase.1 fun c hc =>
      Bool.eq_false_of_not_eq_true (List.any_eq_false.mp hbreak c hc)

/-- A program gets the arguments it was started with if and only if each of them that has a line
break also has a blank or a tab. -/
theorem tokenize_commandLine_iff (args : List WString) (hnil : args ≠ [])
    (hnul : ∀ s ∈ args, (0 : WChar) ∉ s) :
    tokenize (commandLine args) = some args ↔ ∀ s ∈ args, Unbroken s := by
  rw [tokenize_commandLine hnul]
  constructor
  · intro h s hs
    split_ifs at h
    rw [← Option.some.inj h, List.mem_flatMap] at hs
    obtain ⟨t, -, ht⟩ := hs
    exact unbroken_of_mem_reread ht
  · intro h
    have hsame : args.flatMap reread = args := by
      rw [List.flatMap_congr fun s hs => reread_of_unbroken (h s hs), List.flatMap_singleton']
    rw [hsame, if_neg hnil]

theorem tokenize_commandLine_four :
    tokenize (commandLine [wide "a b\\", wide "\"\\\"\n\t", [], wide "c\\\\d"]) =
      some [wide "a b\\", wide "\"\\\"\n\t", [], wide "c\\\\d"] :=
  (tokenize_commandLine_iff _ (by decide) (by decide)).mpr (by decide)

/-! ## All arguments at once -/

theorem argvEscape_of_length {s : WString} (h : escapedLength s < 2 ^ 32) :
    argvEscape s =
      if s = [] then wide "\"\""
      else if escapedLength s % 2 ^ 32 = s.length then s
      else if s.any isBlank then 0x22 :: escapeLoop true 0 s
      else escapeLoop false 0 s := by
  rw [Nat.mod_eq_of_lt h]
  rfl

/-- `AssignFull` gives the command line that `Assign` and `Append` give, for arguments whose
escaped length fits in 32 bits. -/
theorem assignFull_eq_commandLine (args : List WString)
    (h : ∀ s ∈ args, escapedLength s < 2 ^ 32) : assignFull args = commandLine args := by
  have hfold {saver : WString} (hsaver : saver ≠ []) {args : List WString}
      (h : ∀ s ∈ args, escapedLength s < 2 ^ 32) :
      args.foldl assignFullStep saver = args.foldl appendArgv saver := by
    induction args generalizing saver with
    | nil => rfl
    | cons s args ih =>
        have hstep : assignFullStep saver s = appendArgv saver s := by
          rw [assignFullStep, appendArgv, if_neg hsaver, if_neg hsaver,
            ← argvEscape_of_length (h s List.mem_cons_self), List.append_assoc]
          rfl
        have hne : appendArgv saver s ≠ [] := by
          rw [appendArgv, if_neg hsaver]
          simp
        rw [List.foldl_cons, List.foldl_cons, hstep,
          ih hne fun t ht => h t (List.mem_cons_of_mem s ht)]
  cases args with
  | nil => rfl
  | cons s args =>
      have hstep : assignFullStep [] s = argvEscape s := by
        rw [assignFullStep, if_pos rfl, List.nil_append,
          ← argvEscape_of_length (h s List.mem_cons_self)]
      rw [assignFull, List.foldl_cons, hstep,
        hfold (argvEscape_ne_nil s) fun t ht => h t (List.mem_cons_of_mem s ht)]
      rfl

theorem assignFull_powershell :
    assignFull [wide "powershell", wide "-Command", wide "echo \"a b\""] =
      commandLine [wide "powershell", wide "-Command", wide "echo \"a b\""] :=
  assignFull_eq_commandLine _ (by decide)

end Baulk.Cli
