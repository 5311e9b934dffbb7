import Baulk.Archive.Sanitize
import Baulk.Support.Replace

/-!
# Names that pass the guard

The guard keeps a counter in place of a stack of components.  A name that passes is
decoded, and the characters that Windows forbids are replaced by `bela::StrReplaceAll`.
The asterisk is among the forbidden ones, but nothing replaces it.
-/

namespace Baulk.Archive

open Support (components descend)

/-! ## The counter as a stack -/

theorem descend_append {α : Type*} [DecidableEq α] {dot dotdot : α} (stack cs ds : List α) :
    descend dot dotdot stack (cs ++ ds) =
      (descend dot dotdot stack cs).bind fun out => descend dot dotdot out ds := by
  induction cs generalizing stack with
  | nil => rfl
  | cons c cs ih =>
      rw [List.cons_append, descend, descend]
      split
      · exact ih stack
      · split
        · exact ih (stack ++ [c])
        · split
          · rfl
          · exact ih stack.dropLast

/-- The guard accepts a name exactly if its components never leave the root and end
strictly inside; then no first part of them leaves the root either. -/
theorem isHarmfulPath_eq_false_iff (child : Bytes) :
    (isHarmfulPath child = false ↔
      ∃ out, descend (narrow ".") (narrow "..") []
        (components isNarrowSeparator child) = some out ∧ out ≠ []) ∧
    (isHarmfulPath child = false → ∀ front,
      front <+: components isNarrowSeparator child →
      descend (narrow ".") (narrow "..") [] front ≠ none) := by
  have hguard : isHarmfulPath child = false ↔
      ∃ out, descend (narrow ".") (narrow "..") []
        (components isNarrowSeparator child) = some out ∧ out ≠ [] :=
    harmfulComponents_eq_false_iff [] _
  refine ⟨hguard, fun haccepted front hfront hleaves => ?_⟩
  obtain ⟨out, hwalk, -⟩ := hguard.mp haccepted
  obtain ⟨rest, hrest⟩ := hfront
  rw [← hrest, descend_append, hleaves] at hwalk
  cases hwalk

/-! ## Replacing -/

/-- The part of `JoinSanitizeFsPath` between decoding and joining, with
`bela::StrReplaceAll` as it goes on from match to match. -/
def replaceExcluded (s : WString) : WString :=
  if s.any fun c => excludeChars.contains c then
    Support.replaceAll (replacements.map fun p => ([p.1], [p.2])) s
  else s

theorem sanitizeChar_of_mem : ∀ p ∈ replacements, sanitizeChar p.1 = p.2 := by
  have hall : (replacements.all fun p => decide (sanitizeChar p.1 = p.2)) = true := by decide
  intro p hp
  exact of_decide_eq_true (List.all_eq_true.mp hall p hp)

theorem sanitizeChar_of_not_mem {c : WChar} (h : c ∉ replacements.map Prod.fst) :
    sanitizeChar c = c := by
  have hlookup : replacements.lookup c = none := by
    rw [List.lookup_eq_none_iff]
    intro p hp
    have hne : c ≠ p.1 := fun heq => h (heq ▸ List.mem_map_of_mem hp)
    simpa using hne
  rw [sanitizeChar, hlookup, Option.getD_none]

theorem replaceExcluded_eq (s : WString) : replaceExcluded s = sanitizeText s := by
  rw [replaceExcluded, sanitizeText, Support.replaceAll_singletons sanitizeChar_of_mem
    fun c => sanitizeChar_of_not_mem]
  rfl

theorem mem_excludeChars_of_changed {c : WChar} (h : sanitizeChar c ≠ c) : c ∈ excludeChars := by
  rcases sanitizeChar_cases c with ⟨hsame, -⟩ | ⟨hmem, -⟩
  · exact absurd hsame h
  · exact hmem

/-- The asterisk is the only forbidden character that can be left. -/
theorem sanitizeChar_mem_excludeChars_iff (c : WChar) :
    sanitizeChar c ∈ excludeChars ↔ c = 0x2A := by
  rcases sanitizeChar_cases c with ⟨hsame, -⟩ | ⟨hmem, hreplaced⟩
  · rw [hsame]
    constructor
    · intro hmem
      have hall : excludeChars.all (fun d => sanitizeChar d = d → d = 0x2A) = true := by
        decide
      simpa [hsame] using List.all_eq_true.mp hall c hmem
    · rintro rfl
      decide
  · refine iff_of_false ?_ ?_
    · rcases hreplaced with h | h <;> rw [h] <;> decide
    · rintro rfl
      revert hreplaced
      decide

/-- What is expected of the text that becomes the path of an entry. -/
structure Sanitized (decoded encoded : WString) : Prop where
  clean : ∀ c ∈ encoded, c ∉ excludeChars
  length_eq : encoded.length = decoded.length
  changed : ∀ (i : Nat) (c d : WChar), decoded[i]? = some c → encoded[i]? = some d →
    d ≠ c → c ∈ excludeChars

/-- The text that is used is a sanitized form of the name unless there is an asterisk in
it. -/
theorem joinSanitizeFsPath_sanitized_iff {decode : Bytes → WString} {root p : WinPath}
    {child : Bytes} {encoded : WString}
    (h : joinSanitizeFsPath decode root child = some (p, encoded)) :
    (p = root.append (WinPath.ofText encoded) ∧ encoded = replaceExcluded (decode child)) ∧
      (Sanitized (decode child) encoded ↔ (0x2A : WChar) ∉ decode child) := by
  rw [joinSanitizeFsPath] at h
  split at h
  · cases h
  · simp only [Option.some.injEq, Prod.mk.injEq] at h
    obtain ⟨rfl, rfl⟩ := h
    refine ⟨⟨rfl, (replaceExcluded_eq _).symm⟩, ?_⟩
    rw [sanitizeText_eq_map]
    constructor
    · intro hsanitized hstar
      refine hsanitized.clean _ (List.mem_map_of_mem hstar) ?_
      rw [sanitizeChar_mem_excludeChars_iff]
    · intro hstar
      refine ⟨?_, List.length_map _, ?_⟩
      · intro d hd hexcluded
        obtain ⟨c, hc, rfl⟩ := List.mem_map.mp hd
        rw [sanitizeChar_mem_excludeChars_iff] at hexcluded
        exact hstar (hexcluded ▸ hc)
      · intro i c d hc hd hne
        rw [List.getElem?_map, hc, Option.map_some, Option.some.injEq] at hd
        refine mem_excludeChars_of_changed ?_
        rw [hd]
        exact hne

/-- Characters that follow one another are all replaced. -/
theorem joinSanitizeFsPath_sanitized_adjacent :
    Sanitized (wide "a<<:|b") (wide "a____b") := by
  have hjoin : joinSanitizeFsPath (fun bytes => bytes.map UInt8.toUInt16)
      (WinPath.ofText (wide "C:\\d")) (narrow "a<<:|b") =
        some (_, wide "a____b") := rfl
  exact (joinSanitizeFsPath_sanitized_iff hjoin).2.mpr (by decide)

/-- The name `a*b` keeps its asterisk. -/
theorem joinSanitizeFsPath_asterisk : ∃ p encoded,
    joinSanitizeFsPath (fun bytes => bytes.map UInt8.toUInt16)
        (WinPath.ofText (wide "C:\\d")) (narrow "a*b") = some (p, encoded) ∧
      ¬ Sanitized (wide "a*b") encoded := by
  refine ⟨_, wide "a*b", rfl, fun hsanitized => ?_⟩
  exact hsanitized.clean 0x2A (by decide) (by decide)

end Baulk.Archive
