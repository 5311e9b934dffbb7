import Baulk.Path.Windows

/-!
# Joining an archive entry's name to the destination

`JoinSanitizeFsPath` is the guard of both extractors against entries that
would be written outside the destination.  It counts the components of the
raw bytes of the name, then decodes the name, replaces characters that Windows
forbids, and appends the result to the destination.  The decoder is UTF-8 or
whatever code page the encoding detector picked, so it is a parameter.

The count and the path that is opened therefore belong to two different
texts.  The main result says which names the guard is adequate for.
-/

namespace Baulk.Archive

open Support (components collapse descend)

/-! ## The guard -/

/-- The loop of `is_harmful_path` over the components, with its counter. -/
def harmfulComponents {α : Type*} [DecidableEq α] (dot dotdot : α) :
    Int → List α → Bool
  | entries, [] => decide (entries ≤ 0)
  | entries, c :: cs =>
      if c = dot then harmfulComponents dot dotdot entries cs
      else if c ≠ dotdot then harmfulComponents dot dotdot (entries + 1) cs
      else if entries - 1 < 0 then true
      else harmfulComponents dot dotdot (entries - 1) cs

/-- `bela::narrow::ByAnyChar("\\/")`. -/
def isNarrowSeparator (c : UInt8) : Bool :=
  c == 0x5C || c == 0x2F

def isHarmfulPath (child : Bytes) : Bool :=
  harmfulComponents (narrow ".") (narrow "..") 0
    (components isNarrowSeparator child)

/-- The same guard evaluated on a decoded text.  The code never does this; it
is what the guard would have to look at. -/
def isHarmfulText (s : WString) : Bool :=
  harmfulComponents dotName dotdotName 0 (components isPathSeparator s)

/-- A text whose first character is a separator, so that it has a root. -/
def beginsWithSeparator (s : WString) : Bool :=
  (s.head?.map isPathSeparator).getD false

/-- The guard accepts exactly the walks that stay below their start and end
strictly below it. -/
theorem harmfulComponents_eq_false_iff {α : Type*} [DecidableEq α]
    {dot dotdot : α} (stack cs : List α) :
    harmfulComponents dot dotdot stack.length cs = false ↔
      ∃ out, descend dot dotdot stack cs = some out ∧ out ≠ [] := by
  induction cs generalizing stack with
  | nil =>
      cases stack with
      | nil => simp [harmfulComponents, descend]
      | cons a stack =>
          simp only [harmfulComponents, descend, decide_eq_false_iff_not]
          constructor
          · intro _
            exact ⟨a :: stack, rfl, by simp⟩
          · intro _
            simp only [List.length_cons]
            omega
  | cons c cs ih =>
      rw [harmfulComponents, descend]
      split
      · exact ih stack
      · split
        · have hlen : (stack.length : Int) + 1 = (stack ++ [c]).length := by
            simp
          rw [hlen]
          exact ih (stack ++ [c])
        · cases stack with
          | nil => simp
          | cons a stack =>
              have hlen : ((a :: stack).length : Int) - 1 =
                  ((a :: stack).dropLast.length : Int) := by
                simp
              have hpos : ¬((a :: stack).length : Int) - 1 < 0 := by
                simp only [List.length_cons]
                omega
              rw [if_neg hpos, if_neg (by simp : a :: stack ≠ []), hlen]
              exact ih (a :: stack).dropLast

theorem isHarmfulText_eq_false_iff (s : WString) :
    isHarmfulText s = false ↔
      ∃ out, descend dotName dotdotName [] (components isPathSeparator s) =
        some out ∧ out ≠ [] :=
  harmfulComponents_eq_false_iff [] _

/-- Renaming components keeps the verdict if it keeps the two special ones. -/
theorem harmfulComponents_map {α β : Type*} [DecidableEq α] [DecidableEq β]
    {dot dotdot : α} {dot' dotdot' : β} {g : α → β} {cs : List α}
    (hdot : ∀ c ∈ cs, g c = dot' ↔ c = dot)
    (hdotdot : ∀ c ∈ cs, g c = dotdot' ↔ c = dotdot) (entries : Int) :
    harmfulComponents dot' dotdot' entries (cs.map g) =
      harmfulComponents dot dotdot entries cs := by
  induction cs generalizing entries with
  | nil => rfl
  | cons c cs ih =>
      have hc := hdot c (by simp)
      have hc' := hdotdot c (by simp)
      have htail := ih (fun d hd => hdot d (by simp [hd]))
        (fun d hd => hdotdot d (by simp [hd]))
      simp only [List.map_cons, harmfulComponents, ne_eq, hc, hc', htail]

/-! ## Replacing forbidden characters -/

def excludeChars : WString := wide "\r\n<>:\"|*?"

/-- The pairs handed to `bela::StrReplaceAll`; `|` stands twice, `*` not at
all. -/
def replacements : List (WChar × WChar) :=
  [(0x0D, 0x2D), (0x0A, 0x5F), (0x3C, 0x5F), (0x3E, 0x5F), (0x3A, 0x5F),
    (0x22, 0x5F), (0x7C, 0x5F), (0x7C, 0x5F), (0x3F, 0x5F)]

/-- `bela::StrReplaceAll` for patterns and replacements of one character. -/
def strReplaceAll (pairs : List (WChar × WChar)) (s : WString) : WString :=
  s.map fun c => (pairs.lookup c).getD c

/-- The part of `JoinSanitizeFsPath` between decoding and joining. -/
def sanitizeText (s : WString) : WString :=
  if s.any fun c => excludeChars.contains c then strReplaceAll replacements s
  else s

def sanitizeChar (c : WChar) : WChar :=
  (replacements.lookup c).getD c

theorem sanitizeChar_cases (c : WChar) :
    sanitizeChar c = c ∧ c ≠ 0x3A ∨
      c ∈ excludeChars ∧ (sanitizeChar c = 0x2D ∨ sanitizeChar c = 0x5F) := by
  by_cases hc : c ∈ replacements.map Prod.fst
  · right
    have hall : (replacements.map Prod.fst).all (fun d =>
        d ∈ excludeChars ∧ (sanitizeChar d = 0x2D ∨ sanitizeChar d = 0x5F)) =
        true := by decide
    simpa using List.all_eq_true.mp hall c hc
  · left
    have hlookup : replacements.lookup c = none := by
      rw [List.lookup_eq_none_iff]
      intro p hp
      have hne : c ≠ p.1 := fun h => hc (h ▸ List.mem_map_of_mem hp)
      simpa using hne
    refine ⟨by simp [sanitizeChar, hlookup], ?_⟩
    rintro rfl
    exact hc (by decide)

theorem sanitizeText_eq_map (s : WString) :
    sanitizeText s = s.map sanitizeChar := by
  rw [sanitizeText]
  split
  · rfl
  · rename_i hnone
    have hfix : ∀ c ∈ s, sanitizeChar c = id c := by
      intro c hc
      rcases sanitizeChar_cases c with ⟨h, -⟩ | ⟨h, -⟩
      · exact h
      · exact absurd (List.any_eq_true.mpr ⟨c, hc, by simpa using h⟩) hnone
    rw [List.map_congr_left hfix, List.map_id]

theorem isPathSeparator_sanitizeChar (c : WChar) :
    isPathSeparator (sanitizeChar c) = isPathSeparator c := by
  rcases sanitizeChar_cases c with ⟨h, -⟩ | ⟨hmem, h⟩
  · rw [h]
  · have hall : excludeChars.all (fun d => !isPathSeparator d) = true := by
      decide
    have hc : isPathSeparator c = false := by
      simpa using List.all_eq_true.mp hall c hmem
    rw [hc]
    rcases h with h | h <;> rw [h] <;> decide

theorem sanitizeChar_eq_dot_iff (c : WChar) :
    sanitizeChar c = 0x2E ↔ c = 0x2E := by
  rcases sanitizeChar_cases c with ⟨h, -⟩ | ⟨hmem, h⟩
  · rw [h]
  · have hall : excludeChars.all (fun d => d != 0x2E) = true := by decide
    have hc : c ≠ 0x2E := by simpa using List.all_eq_true.mp hall c hmem
    constructor
    · intro hdot
      rcases h with h | h <;> rw [h] at hdot <;> contradiction
    · intro hdot
      exact absurd hdot hc

theorem sanitizeText_no_colon (s : WString) :
    (0x3A : WChar) ∉ sanitizeText s := by
  rw [sanitizeText_eq_map, List.mem_map]
  rintro ⟨c, -, hc⟩
  rcases sanitizeChar_cases c with ⟨h, hne⟩ | ⟨-, h⟩
  · exact hne (h ▸ hc)
  · rcases h with h | h <;> rw [h] at hc <;> contradiction

theorem beginsWithSeparator_sanitizeText (s : WString) :
    beginsWithSeparator (sanitizeText s) = beginsWithSeparator s := by
  rw [sanitizeText_eq_map]
  cases s with
  | nil => rfl
  | cons c s => simp [beginsWithSeparator, isPathSeparator_sanitizeChar]

/-- Replacing characters changes neither separators nor dots, so the guard
sees no difference. -/
theorem isHarmfulText_sanitizeText (s : WString) :
    isHarmfulText (sanitizeText s) = isHarmfulText s := by
  have hdot : ∀ c : WString,
      c.map sanitizeChar = dotName ↔ c = dotName := by
    intro c
    match c with
    | [] => simp
    | [x] => simp [dotName, wide, sanitizeChar_eq_dot_iff]
    | _ :: _ :: _ => simp [dotName, wide]
  have hdotdot : ∀ c : WString,
      c.map sanitizeChar = dotdotName ↔ c = dotdotName := by
    intro c
    match c with
    | [] => simp
    | [_] => simp [dotdotName, wide]
    | [x, y] => simp [dotdotName, wide, sanitizeChar_eq_dot_iff]
    | _ :: _ :: _ :: _ => simp [dotdotName, wide]
  rw [isHarmfulText, isHarmfulText, sanitizeText_eq_map,
    Support.components_map isPathSeparator_sanitizeChar]
  exact harmfulComponents_map (fun c _ => hdot c) (fun c _ => hdotdot c) 0

/-! ## Joining -/

/-- `JoinSanitizeFsPath`: the joined path and `encoded_path`.  `decode` is
`encode_into_native` for the entry's encoding. -/
def joinSanitizeFsPath (decode : Bytes → WString) (root : WinPath)
    (child : Bytes) : Option (WinPath × WString) :=
  if isHarmfulPath child then none
  else
    let encoded := sanitizeText (decode child)
    some (root.append (WinPath.ofText encoded), encoded)

/-- Appending a text without drive letter or leading separator appends its
components. -/
theorem append_ofText_relative {s : WString} (root : WinPath)
    (hcolon : (0x3A : WChar) ∉ s) (hsep : beginsWithSeparator s = false) :
    (root.append (WinPath.ofText s)).rootName = root.rootName ∧
      (root.append (WinPath.ofText s)).normalParts =
        collapse dotName dotdotName root.normalParts
          (components isPathSeparator s) := by
  obtain ⟨hname, hdir, hparts⟩ := WinPath.ofText_of_relative hcolon hsep
  have habs : (WinPath.ofText s).isAbsolute = false := by
    simp [WinPath.isAbsolute, hname]
  have hnormal : (root.append (WinPath.ofText s)).parts =
      root.parts ++ components isPathSeparator s := by
    simp [WinPath.append, habs, hname, hdir, hparts]
  refine ⟨by simp [WinPath.append, habs, hname, hdir], ?_⟩
  rw [WinPath.normalParts, hnormal, Support.collapse_append]
  rfl

/-- A directory `C:\aa...a` whose name is longer than any component of a given
text, so that no walk along the text can arrive in it by name. -/
def longRoot (n : Nat) : WinPath where
  rootName := wide "C:"
  rootDir := true
  parts := [List.replicate (n + 1) 0x61]
  trailing := false
  parts_valid := by
    intro c hc
    rw [List.mem_singleton] at hc
    subst hc
    refine ⟨by simp, ?_⟩
    intro x hx
    rw [List.eq_of_mem_replicate hx]
    decide
  root_valid := by simp

theorem longRoot_normalParts (n : Nat) :
    (longRoot n).normalParts = [List.replicate (n + 1) 0x61] := by
  have hplain : ∀ c ∈ (longRoot n).parts, c ≠ dotName ∧ c ≠ dotdotName := by
    intro c hc
    rw [longRoot, List.mem_singleton] at hc
    subst hc
    constructor <;> simp [dotName, dotdotName, wide, List.replicate_succ]
  rw [WinPath.normalParts, Support.collapse_of_plain _ hplain]
  rfl

/-- The name of `longRoot` is not among the components of a shorter text. -/
theorem longRoot_not_below {s : WString} {p : WinPath}
    (hp : ∀ c ∈ p.normalParts, c ∈ components isPathSeparator s) :
    ¬WinPath.StrictlyBelow (longRoot s.length) p := by
  rintro ⟨-, hprefix, -⟩
  rw [longRoot_normalParts] at hprefix
  have hmem : List.replicate (s.length + 1) 0x61 ∈ p.normalParts :=
    hprefix.subset (by simp)
  have hlen := Support.length_le_of_mem_components (hp _ hmem)
  rw [List.length_replicate] at hlen
  omega

/-- Below a suitable root, a text that begins with a separator leaves the
root: it is appended to the root name only, or replaces the root. -/
theorem not_strictlyBelow_of_rooted {s : WString}
    (hsep : beginsWithSeparator s = true) :
    ¬WinPath.StrictlyBelow (longRoot s.length)
      ((longRoot s.length).append (WinPath.ofText s)) := by
  rcases WinPath.ofText_of_rooted hsep with ⟨hname, hdir, hparts⟩ | hlen
  · have habs : (WinPath.ofText s).isAbsolute = false := by
      simp [WinPath.isAbsolute, hname]
    have happend :
        ((longRoot s.length).append (WinPath.ofText s)).parts =
          components isPathSeparator s := by
      simp [WinPath.append, habs, hname, hdir, hparts]
    apply longRoot_not_below
    intro c hc
    rcases Support.mem_collapse hc with h | ⟨h, -⟩
    · simp at h
    · exact happend ▸ h
  · have habs : (WinPath.ofText s).isAbsolute = true := by
      have hne : (WinPath.ofText s).rootName ≠ [] := by
        intro h
        simp [h] at hlen
      have htwo : (WinPath.ofText s).rootName.length ≠ 2 := by omega
      simp [WinPath.isAbsolute, htwo, hne]
    rw [WinPath.append, habs]
    rintro ⟨hname, -⟩
    have htwo : (WinPath.ofText s).rootName.length = 2 := by
      rw [show (WinPath.ofText s).rootName = wide "C:" from hname]
      rfl
    omega

/-- Below a suitable root, a relative text which the guard would reject leaves
the root or stays at it. -/
theorem not_strictlyBelow_of_harmful {s : WString}
    (hcolon : (0x3A : WChar) ∉ s) (hsep : beginsWithSeparator s = false)
    (hharm : isHarmfulText s = true) :
    ¬WinPath.StrictlyBelow (longRoot s.length)
      ((longRoot s.length).append (WinPath.ofText s)) := by
  obtain ⟨-, hnormal⟩ :=
    append_ofText_relative (longRoot s.length) hcolon hsep
  rw [longRoot_normalParts] at hnormal
  cases hwalk : descend dotName dotdotName []
      (components isPathSeparator s) with
  | none =>
      apply longRoot_not_below
      intro c hc
      rw [hnormal] at hc
      simpa using Support.mem_collapse_of_descend_none hwalk hc
  | some out =>
      have hout : out = [] := by
        by_contra hne
        have hfalse := (isHarmfulText_eq_false_iff s).mpr ⟨out, hwalk, hne⟩
        rw [hharm] at hfalse
        contradiction
      rintro ⟨-, -, hne⟩
      apply hne
      have hcollapse := Support.collapse_of_descend
        [List.replicate (s.length + 1) 0x61] hwalk
      rw [List.append_nil, hout, List.append_nil] at hcollapse
      rw [hnormal, hcollapse, longRoot_normalParts]

/-- A relative text which the guard accepts lies strictly below every root. -/
theorem strictlyBelow_of_not_harmful {s : WString} (root : WinPath)
    (hcolon : (0x3A : WChar) ∉ s) (hsep : beginsWithSeparator s = false)
    (hharm : isHarmfulText s = false) :
    WinPath.StrictlyBelow root (root.append (WinPath.ofText s)) := by
  obtain ⟨out, hwalk, hout⟩ := (isHarmfulText_eq_false_iff s).mp hharm
  obtain ⟨hname, hnormal⟩ := append_ofText_relative root hcolon hsep
  have hcollapse :=
    Support.collapse_of_descend root.normalParts hwalk
  rw [List.append_nil] at hcollapse
  refine ⟨hname, ?_, ?_⟩
  · rw [hnormal, hcollapse]
    exact List.prefix_append _ _
  · rw [hnormal, hcollapse]
    simpa using hout

/-- For a given entry name and decoder, every joined path lies strictly below
its destination, whatever absolute destination is chosen, exactly when the
guard rejects the raw name, or the decoded name has no leading separator and
passes the guard itself. -/
theorem joinSanitizeFsPath_strictlyBelow_iff
    (decode : Bytes → WString) (child : Bytes) :
    (∀ (root : WinPath.Absolute) (p : WinPath) (encoded : WString),
        joinSanitizeFsPath decode root child = some (p, encoded) →
          WinPath.StrictlyBelow root p) ↔
      isHarmfulPath child = true ∨
        (beginsWithSeparator (decode child) = false ∧
          isHarmfulText (decode child) = false) := by
  rw [← beginsWithSeparator_sanitizeText, ← isHarmfulText_sanitizeText]
  set s := sanitizeText (decode child) with hs
  have hcolon : (0x3A : WChar) ∉ s := sanitizeText_no_colon (decode child)
  constructor
  · intro hall
    by_cases hraw : isHarmfulPath child = true
    · exact Or.inl hraw
    · right
      have hbelow := hall ⟨longRoot s.length, rfl⟩
        ((longRoot s.length).append (WinPath.ofText s)) s
        (by rw [joinSanitizeFsPath, if_neg hraw])
      have hsep : beginsWithSeparator s = false := by
        by_contra h
        exact not_strictlyBelow_of_rooted (by simpa using h) hbelow
      refine ⟨hsep, ?_⟩
      by_contra h
      exact not_strictlyBelow_of_harmful hcolon hsep (by simpa using h) hbelow
  · intro hcond root p encoded hjoin
    rw [joinSanitizeFsPath] at hjoin
    split at hjoin
    · contradiction
    · rename_i hraw
      rcases hcond with h | ⟨hsep, hharm⟩
      · exact absurd h hraw
      · simp only [Option.some.injEq, Prod.mk.injEq] at hjoin
        rw [← hjoin.1]
        exact strictlyBelow_of_not_harmful root hcolon hsep hharm

/-- An entry named `/Windows/x` is joined to `C:/Windows/x`, outside the
destination `C:\dest`; decoding is the identity on ASCII. -/
theorem joinSanitizeFsPath_leaves_destination :
    ¬∀ (decode : Bytes → WString) (root : WinPath.Absolute) (child : Bytes)
        (p : WinPath) (encoded : WString),
      joinSanitizeFsPath decode root child = some (p, encoded) →
        WinPath.StrictlyBelow root p := by
  intro hall
  have hbelow := hall (fun bytes => bytes.map UInt8.toUInt16)
    ⟨WinPath.ofText (wide "C:\\dest"), by decide⟩ (narrow "/Windows/x")
    _ _ rfl
  revert hbelow
  decide

end Baulk.Archive
