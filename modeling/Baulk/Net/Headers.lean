import Baulk.Core.ErrorCode
import Baulk.Support.Cut
import Baulk.Support.Lines

/-!
# The headers of a request

`write_headers` puts the headers, the position from which a download goes on
and the cookies into one text, and passes it to the system.  The line with the
position is not ended, so the cookies do not begin a line of their own.
-/

namespace Baulk.Net

open Support (HasLineEnd splitLines)

/-! ## Writing -/

/-- `headers_t`, in the order of its iterators. -/
abbrev Headers := List (WString × WString)

def crlf : WString := [0x0D, 0x0A]

def headerLine (h : WString × WString) : WString :=
  h.1 ++ wide ": " ++ h.2 ++ crlf

/-- `bela::StrJoin(cookies, L"; ")`. -/
def joinCookies (cookies : List WString) : WString :=
  (wide "; ").intercalate cookies

/-- The value of the header `Range`, for a position that is positive. -/
def rangeFrom (position : Int64) : WString :=
  wide "bytes=" ++ wide (Nat.repr position.toInt.toNat) ++ wide "-"

def flattenedHeaders (hkv : Headers) (cookies : List WString)
    (position : Int64) : WString :=
  (hkv.map headerLine).flatten ++
    (if 0 < position then wide "Range: " ++ rangeFrom position else []) ++
    (if cookies.isEmpty then []
      else wide "Cookie: " ++ joinCookies cookies ++ crlf)

/-- `write_headers`; `add` is `WinHttpAddRequestHeaders`. -/
def writeHeaders (add : WString → Option ErrorCode) (hkv : Headers)
    (cookies : List WString) (position : Int64) : Option ErrorCode :=
  let flattened := flattenedHeaders hkv cookies position
  if flattened.isEmpty then none else add flattened

/-! ## Reading -/

/-- A line, cut at its first colon. -/
def parseLine (line : WString) : WString × WString :=
  match line.findIdx? (· == 0x3A) with
  | none => (line, [])
  | some pos => (line.take pos, line.drop (pos + 1))

/-- The lines of a block of headers. -/
def parseBlock (block : WString) : List (WString × WString) :=
  ((splitLines 0x0D 0x0A block).filter fun line => !line.isEmpty).map parseLine

def headerLines (hkv : Headers) (cookies : List WString) (position : Int64) :
    List (WString × WString) :=
  (hkv.map fun h => (h.1, wide " " ++ h.2)) ++
    (if 0 < position then [(wide "Range", wide " " ++ rangeFrom position)]
      else []) ++
    (if cookies.isEmpty then []
      else [(wide "Cookie", wide " " ++ joinCookies cookies)])

/-- There is no line end in a text. -/
def OneLine (s : WString) : Prop :=
  (0x0D : WChar) ∉ s ∧ (0x0A : WChar) ∉ s

theorem parseLine_of_cut {name value : WString} (h : (0x3A : WChar) ∉ name) :
    parseLine (name ++ 0x3A :: value) = (name, value) := by
  unfold parseLine
  rw [Support.findIdx?_append_cons h]
  simp [List.drop_append]

theorem colon_not_mem_parseLine (line : WString) :
    (0x3A : WChar) ∉ (parseLine line).1 := by
  rcases Support.cut_cases line (0x3A : WChar) with h | ⟨name, value, rfl, h⟩
  · unfold parseLine
    rw [Support.findIdx?_eq_none_iff_not_mem.mpr h]
    exact h
  · rw [parseLine_of_cut h]
    exact h

theorem not_hasLineEnd_parseLine {line : WString}
    (h : ¬ HasLineEnd 0x0D 0x0A line) :
    ¬ HasLineEnd 0x0D 0x0A (parseLine line).2 := by
  unfold parseLine
  cases line.findIdx? (· == 0x3A) with
  | none => exact Support.not_hasLineEnd_nil
  | some pos => exact Support.not_hasLineEnd_drop h _

theorem mem_parseBlock {block : WString} {p : WString × WString}
    (h : p ∈ parseBlock block) :
    (0x3A : WChar) ∉ p.1 ∧ ¬ HasLineEnd 0x0D 0x0A p.2 := by
  obtain ⟨line, hline, rfl⟩ := List.mem_map.mp h
  have hmem := (List.mem_filter.mp hline).1
  exact ⟨colon_not_mem_parseLine line, not_hasLineEnd_parseLine
    (Support.not_hasLineEnd_of_mem_splitLines hmem)⟩

theorem parseBlock_append {line rest : WString} (hne : line ≠ [])
    (h : ¬ HasLineEnd 0x0D 0x0A line) :
    parseBlock (line ++ crlf ++ rest) = parseLine line :: parseBlock rest := by
  unfold parseBlock crlf
  have hrn : (0x0D : WChar) ≠ 0x0A := by decide
  rw [List.append_assoc, List.cons_append, List.singleton_append,
    Support.splitLines_append hrn h, List.filter_cons, if_pos (by simpa using hne),
    List.map_cons]

theorem parseBlock_line {line : WString} (hne : line ≠ [])
    (h : ¬ HasLineEnd 0x0D 0x0A line) : parseBlock line = [parseLine line] := by
  unfold parseBlock
  rw [Support.splitLines_of_not_hasLineEnd h, List.filter_cons,
    if_pos (by simpa using hne)]
  rfl

/-! ## The lines of the block -/

theorem repr_oneLine (n : Nat) : (0x0D : WChar) ∉ wide (Nat.repr n) := by
  intro h
  have hdigit := digit_of_mem_repr h
  exact absurd hdigit.1 (by decide)

theorem rangeFrom_oneLine (position : Int64) :
    (0x0D : WChar) ∉ rangeFrom position := by
  unfold rangeFrom
  rw [List.mem_append, List.mem_append]
  rintro ((h | h) | h)
  · exact absurd h (by decide)
  · exact repr_oneLine _ h
  · exact absurd h (by decide)

theorem parseBlock_headerLine {h : WString × WString} {rest : WString}
    (hname : OneLine h.1) (hvalue : OneLine h.2) :
    parseBlock (headerLine h ++ rest) =
      parseLine (h.1 ++ wide ": " ++ h.2) :: parseBlock rest := by
  apply parseBlock_append
  · simp [wide]
  · apply Support.not_hasLineEnd_of_not_mem
    rw [List.mem_append, List.mem_append]
    rintro ((hmem | hmem) | hmem)
    · exact hname.1 hmem
    · exact absurd hmem (by decide)
    · exact hvalue.1 hmem

theorem parseBlock_headerLines {hkv : Headers} {rest : WString}
    (h : ∀ entry ∈ hkv, OneLine entry.1 ∧ OneLine entry.2) :
    parseBlock ((hkv.map headerLine).flatten ++ rest) =
      hkv.map (fun entry => parseLine (entry.1 ++ wide ": " ++ entry.2)) ++
        parseBlock rest := by
  induction hkv with
  | nil => rfl
  | cons entry hkv ih =>
      obtain ⟨hentry, hrest⟩ := List.forall_mem_cons.mp h
      rw [List.map_cons, List.flatten_cons, List.append_assoc,
        parseBlock_headerLine hentry.1 hentry.2, ih hrest]
      rfl

theorem parseLine_named {name value : WString} (h : (0x3A : WChar) ∉ name) :
    parseLine (name ++ wide ": " ++ value) = (name, wide " " ++ value) := by
  have hsplit : name ++ wide ": " ++ value = name ++ 0x3A :: (wide " " ++ value) := by
    simp [wide]
  rw [hsplit, parseLine_of_cut h]

theorem parseBlock_range (position : Int64) :
    parseBlock (wide "Range: " ++ rangeFrom position) =
      [(wide "Range", wide " " ++ rangeFrom position)] := by
  have hline : wide "Range: " ++ rangeFrom position =
      wide "Range" ++ wide ": " ++ rangeFrom position := rfl
  have hend : ¬ HasLineEnd 0x0D 0x0A (wide "Range: " ++ rangeFrom position) := by
    apply Support.not_hasLineEnd_of_not_mem
    rw [List.mem_append]
    rintro (h | h)
    · exact absurd h (by decide)
    · exact rangeFrom_oneLine position h
  rw [parseBlock_line (by simp [wide]) hend, hline, parseLine_named (by decide)]

theorem parseBlock_cookies {front : WString} {cookies : List WString}
    (hfront : (0x0D : WChar) ∉ front)
    (h : ¬ HasLineEnd 0x0D 0x0A (joinCookies cookies)) :
    parseBlock (front ++ (wide "Cookie: " ++ joinCookies cookies ++ crlf)) =
      [parseLine (front ++ wide "Cookie: " ++ joinCookies cookies)] := by
  have hend : ¬ HasLineEnd 0x0D 0x0A
      (front ++ wide "Cookie: " ++ joinCookies cookies) := by
    have hmem : (0x0D : WChar) ∉ front ++ wide "Cookie: " := by
      rw [List.mem_append]
      rintro (hmem | hmem)
      · exact hfront hmem
      · exact absurd hmem (by decide)
    rwa [Support.hasLineEnd_append_iff hmem]
  have hne : front ++ wide "Cookie: " ++ joinCookies cookies ≠ [] := by
    simp [wide]
  have hblock := @parseBlock_append _ [] hne hend
  rw [List.append_nil] at hblock
  rw [← List.append_assoc, ← List.append_assoc, hblock]
  rfl

/-! ## Which lines there are -/

/-- The names have no colon, the cookies no line end, and there is no line in
front of the cookies that is not ended. -/
structure BlockReadable (hkv : Headers) (cookies : List WString)
    (position : Int64) : Prop where
  names : ∀ entry ∈ hkv, (0x3A : WChar) ∉ entry.1
  joined : cookies ≠ [] → ¬ HasLineEnd 0x0D 0x0A (joinCookies cookies)
  ended : 0 < position → cookies = []

theorem parseBlock_flattenedHeaders {hkv : Headers} {cookies : List WString}
    {position : Int64}
    (hlines : ∀ entry ∈ hkv, OneLine entry.1 ∧ OneLine entry.2)
    (h : BlockReadable hkv cookies position) :
    parseBlock (flattenedHeaders hkv cookies position) =
      headerLines hkv cookies position := by
  have hheads : hkv.map (fun entry => parseLine (entry.1 ++ wide ": " ++ entry.2)) =
      hkv.map fun entry => (entry.1, wide " " ++ entry.2) :=
    List.map_congr_left fun entry hentry => parseLine_named (h.names entry hentry)
  unfold flattenedHeaders headerLines
  rw [List.append_assoc, parseBlock_headerLines hlines, hheads,
    List.append_assoc (hkv.map _), List.append_cancel_left_eq]
  by_cases hcookies : cookies = []
  · simp only [hcookies, List.isEmpty_nil, if_true, List.append_nil]
    by_cases hposition : 0 < position
    · rw [if_pos hposition, if_pos hposition, parseBlock_range]
    · rw [if_neg hposition, if_neg hposition]
      rfl
  · have hposition : ¬ 0 < position := fun hpos => hcookies (h.ended hpos)
    have hempty : ¬ cookies.isEmpty = true := mt List.isEmpty_iff.mp hcookies
    rw [if_neg hposition, if_neg hposition, if_neg hempty, if_neg hempty,
      parseBlock_cookies List.not_mem_nil (h.joined hcookies)]
    exact congrArg (· :: []) (@parseLine_named (wide "Cookie") _ (by decide))

/-- The block has the lines it is for exactly if its parts are separate. -/
theorem writeHeaders_lines_iff (hkv : Headers) (cookies : List WString)
    (position : Int64)
    (hlines : ∀ entry ∈ hkv, OneLine entry.1 ∧ OneLine entry.2) :
    (parseBlock (flattenedHeaders hkv cookies position)).Perm
        (headerLines hkv cookies position) ↔
      BlockReadable hkv cookies position := by
  constructor
  · intro hperm
    have hnames : ∀ entry ∈ hkv, (0x3A : WChar) ∉ entry.1 := by
      intro entry hentry
      have hmem : (entry.1, wide " " ++ entry.2) ∈
          headerLines hkv cookies position :=
        List.mem_append_left _ (List.mem_append_left _
          (List.mem_map_of_mem hentry))
      exact (mem_parseBlock (hperm.mem_iff.mpr hmem)).1
    have hjoined : cookies ≠ [] → ¬ HasLineEnd 0x0D 0x0A (joinCookies cookies) := by
      intro hcookies
      have hmem : (wide "Cookie", wide " " ++ joinCookies cookies) ∈
          headerLines hkv cookies position := by
        refine List.mem_append_right _ ?_
        rw [if_neg (mt List.isEmpty_iff.mp hcookies)]
        exact List.mem_singleton_self _
      have hvalue := (mem_parseBlock (hperm.mem_iff.mpr hmem)).2
      rwa [Support.hasLineEnd_append_iff (by decide)] at hvalue
    refine ⟨hnames, hjoined, fun hposition => ?_⟩
    by_contra hcookies
    -- The position and the cookies are one line instead of two.
    have hempty : ¬ cookies.isEmpty = true := mt List.isEmpty_iff.mp hcookies
    have hlen := hperm.length_eq
    unfold flattenedHeaders headerLines at hlen
    have hfront : (0x0D : WChar) ∉ wide "Range: " ++ rangeFrom position := by
      rw [List.mem_append]
      rintro (h | h)
      · exact absurd h (by decide)
      · exact rangeFrom_oneLine position h
    rw [if_pos hposition, if_pos hposition, if_neg hempty, if_neg hempty,
      List.append_assoc, parseBlock_headerLines hlines,
      parseBlock_cookies hfront (hjoined hcookies)] at hlen
    simp at hlen
  · intro h
    rw [parseBlock_flattenedHeaders hlines h]

theorem writeHeaders_lines_iff_plain :
    (parseBlock (flattenedHeaders [(wide "Accept", wide "*/*")] [wide "a=1"] 0)).Perm
        (headerLines [(wide "Accept", wide "*/*")] [wide "a=1"] 0) ↔
      BlockReadable [(wide "Accept", wide "*/*")] [wide "a=1"] 0 :=
  writeHeaders_lines_iff _ _ _ (by unfold OneLine; decide)

/-- A download that goes on, with a cookie: the cookie is in the line with the
position. -/
theorem writeHeaders_cookie_lost :
    ¬ ∀ (hkv : Headers) (cookies : List WString) (position : Int64),
      (∀ entry ∈ hkv, OneLine entry.1 ∧ OneLine entry.2) →
        (parseBlock (flattenedHeaders hkv cookies position)).Perm
          (headerLines hkv cookies position) := by
  intro h
  have hlen := (h [] [wide "a=1"] 5 (by simp)).length_eq
  exact absurd hlen (by decide)

end Baulk.Net
