import Mathlib.Computability.Language

/-!
# Wildcard patterns

A wildcard pattern is a list of places.  A place stands for one letter of a set
or for any text, and the language of the pattern is the product of the
languages of its places.  A matcher that looks for the rest of a pattern in the
nonempty ends of a text only recognises almost that language: it differs on
patterns that end in three places for any text or more.
-/

namespace Baulk.Support

/-- A place of a pattern. -/
inductive Wildcard (α : Type*) where
  /-- One letter of a set. -/
  | among (p : α → Bool)
  /-- Any text. -/
  | any

namespace Wildcard

variable {α : Type*}

/-- One letter. -/
def exactly [BEq α] (a : α) : Wildcard α :=
  .among (· == a)

def isAny : Wildcard α → Bool
  | .among _ => false
  | .any => true

/-- What a place stands for. -/
def language : Wildcard α → Language α
  | .among p => {w | ∃ a, p a = true ∧ w = [a]}
  | .any => ⊤

/-- What a pattern stands for. -/
def languageOf (qs : List (Wildcard α)) : Language α :=
  (qs.map language).prod

@[simp] theorem mem_languageOf_nil {w : List α} :
    w ∈ languageOf ([] : List (Wildcard α)) ↔ w = [] :=
  Language.mem_one _

theorem languageOf_cons (q : Wildcard α) (qs : List (Wildcard α)) :
    languageOf (q :: qs) = q.language * languageOf qs := by
  rw [languageOf, List.map_cons, List.prod_cons]
  rfl

@[simp] theorem mem_languageOf_among {p : α → Bool} {qs : List (Wildcard α)} {w : List α} :
    w ∈ languageOf (.among p :: qs) ↔
      ∃ a rest, w = a :: rest ∧ p a = true ∧ rest ∈ languageOf qs := by
  rw [languageOf_cons, Language.mem_mul]
  constructor
  · rintro ⟨_, ⟨a, ha, rfl⟩, rest, hrest, rfl⟩
    exact ⟨a, rest, rfl, ha, hrest⟩
  · rintro ⟨a, rest, rfl, ha, hrest⟩
    exact ⟨[a], ⟨a, ha, rfl⟩, rest, hrest, rfl⟩

@[simp] theorem mem_languageOf_any {qs : List (Wildcard α)} {w : List α} :
    w ∈ languageOf (.any :: qs) ↔ ∃ rest, rest <:+ w ∧ rest ∈ languageOf qs := by
  rw [languageOf_cons, Language.mem_mul]
  constructor
  · rintro ⟨start, -, rest, hrest, rfl⟩
    exact ⟨rest, List.suffix_append start rest, hrest⟩
  · rintro ⟨rest, ⟨start, rfl⟩, hrest⟩
    exact ⟨start, trivial, rest, hrest, rfl⟩

/-- The empty text is in the language of a pattern only if every place stands
for any text. -/
theorem nil_mem_languageOf_iff {qs : List (Wildcard α)} :
    [] ∈ languageOf qs ↔ qs.all isAny = true := by
  induction qs with
  | nil => simp
  | cons q qs ih =>
      cases q with
      | among p => simp [isAny]
      | any => simpa [isAny] using ih

/-! ## A search in the nonempty ends -/

/-- What a matcher recognises that takes up to two places for any text at once
and then looks for the rest of the pattern, if there is a rest, in the nonempty
ends of the text. -/
def Searched : List (Wildcard α) → List α → Prop
  | [], w => w = []
  | .among p :: qs, w => ∃ a rest, w = a :: rest ∧ p a = true ∧ Searched qs rest
  | .any :: .any :: qs, w => qs = [] ∨ ∃ v, v ≠ [] ∧ v <:+ w ∧ Searched qs v
  | .any :: qs, w => qs = [] ∨ ∃ v, v ≠ [] ∧ v <:+ w ∧ Searched qs v

/-- Three places for any text or more, at the end of a pattern, stand for a text
that is not empty. -/
def asSearched : List (Wildcard α) → List (Wildcard α)
  | [] => []
  | q :: qs =>
      if 3 ≤ (q :: qs).length ∧ (q :: qs).all isAny = true then [.among fun _ => true, .any]
      else q :: asSearched qs

theorem searched_of_all_any {qs : List (Wildcard α)} (h : qs.all isAny = true) {w : List α}
    (hqs : qs ≠ []) (hw : w ≠ []) : Searched qs w := by
  fun_induction Searched qs w with
  | case1 => exact absurd rfl hqs
  | case2 p qs w ih => simp [isAny] at h
  | case3 qs w ih =>
      by_cases hrest : qs = []
      · exact .inl hrest
      · have hall : qs.all isAny = true := by simpa [isAny] using h
        exact .inr ⟨w, hw, List.suffix_rfl, ih w hall hrest hw⟩
  | case4 qs w hnext ih =>
      by_cases hrest : qs = []
      · exact .inl hrest
      · have hall : qs.all isAny = true := by simpa [isAny] using h
        exact .inr ⟨w, hw, List.suffix_rfl, ih w hall hrest hw⟩

theorem asSearched_of_all_any {q : Wildcard α} {qs : List (Wildcard α)}
    (hlength : 3 ≤ (q :: qs).length) (h : (q :: qs).all isAny = true) :
    asSearched (q :: qs) = [.among fun _ => true, .any] := by
  rw [asSearched, if_pos ⟨hlength, h⟩]

theorem asSearched_cons {q : Wildcard α} {qs : List (Wildcard α)}
    (h : (q :: qs).all isAny ≠ true) : asSearched (q :: qs) = q :: asSearched qs := by
  rw [asSearched, if_neg fun hboth => h hboth.2]

/-- The places of a pattern that do not all stand for any text are not all
changed into such. -/
theorem all_isAny_asSearched {qs : List (Wildcard α)} (h : qs.all isAny ≠ true) :
    (asSearched qs).all isAny ≠ true := by
  induction qs with
  | nil => exact absurd rfl h
  | cons q qs ih =>
      rw [asSearched_cons h, List.all_cons]
      rw [List.all_cons] at h
      cases hq : q.isAny with
      | false => simp
      | true =>
          rw [hq, Bool.true_and] at h
          rw [Bool.true_and]
          exact ih h

/-- Where the empty text is not in a language, only the nonempty ends count. -/
theorem exists_suffix_iff {L : Language α} (h : [] ∉ L) {w : List α} :
    (∃ v, v ≠ [] ∧ v <:+ w ∧ v ∈ L) ↔ ∃ v, v <:+ w ∧ v ∈ L := by
  constructor
  · rintro ⟨v, -, hsuffix, hv⟩
    exact ⟨v, hsuffix, hv⟩
  · rintro ⟨v, hsuffix, hv⟩
    refine ⟨v, ?_, hsuffix, hv⟩
    rintro rfl
    exact h hv

theorem mem_languageOf_all_any {qs : List (Wildcard α)} (h : qs.all isAny = true)
    (hqs : qs ≠ []) (w : List α) : w ∈ languageOf qs := by
  cases qs with
  | nil => exact absurd rfl hqs
  | cons q qs =>
      cases q with
      | among p => simp [isAny] at h
      | any =>
          have hrest : qs.all isAny = true := by simpa [isAny] using h
          exact mem_languageOf_any.mpr ⟨[], List.nil_suffix, nil_mem_languageOf_iff.mpr hrest⟩

/-- One step of the search, for a rest that holds a letter of a set. -/
theorem search_step {qs : List (Wildcard α)} {w : List α} (h : qs.all isAny ≠ true)
    (ih : ∀ v, Searched qs v ↔ v ∈ languageOf (asSearched qs)) :
    (qs = [] ∨ ∃ v, v ≠ [] ∧ v <:+ w ∧ Searched qs v) ↔
      ∃ v, v <:+ w ∧ v ∈ languageOf (asSearched qs) := by
  have hne : qs ≠ [] := by
    rintro rfl
    exact h rfl
  have hnil : [] ∉ languageOf (asSearched qs) := by
    rw [nil_mem_languageOf_iff]
    exact all_isAny_asSearched h
  rw [or_iff_right hne, ← exists_suffix_iff hnil]
  simp only [ih]

theorem searched_iff {qs : List (Wildcard α)} {w : List α} :
    Searched qs w ↔ w ∈ languageOf (asSearched qs) := by
  fun_induction Searched qs w with
  | case1 w => simp [asSearched]
  | case2 p qs w ih =>
      rw [asSearched_cons (by simp [isAny]), mem_languageOf_among]
      simp only [ih]
  | case3 qs w ih =>
      by_cases hall : qs.all isAny = true
      · by_cases hqs : qs = []
        · subst hqs
          refine iff_of_true (.inl rfl) (mem_languageOf_all_any ?_ ?_ w)
          · simp [asSearched, isAny]
          · simp [asSearched]
        · have hlength : 3 ≤ (Wildcard.any :: .any :: qs).length := by
            have hpos := List.length_pos_iff.mpr hqs
            simp only [List.length_cons]
            omega
          rw [asSearched_of_all_any hlength (by simpa [isAny] using hall), or_iff_right hqs]
          constructor
          · rintro ⟨v, hv, hsuffix, -⟩
            obtain ⟨a, rest, rfl⟩ := List.exists_cons_of_ne_nil
              (fun hw => hv (List.suffix_nil.mp (hw ▸ hsuffix)) : w ≠ [])
            exact mem_languageOf_among.mpr
              ⟨a, rest, rfl, rfl, mem_languageOf_all_any rfl (by simp) rest⟩
          · intro hw
            obtain ⟨a, rest, rfl, -, -⟩ := mem_languageOf_among.mp hw
            exact ⟨a :: rest, by simp, List.suffix_rfl, searched_of_all_any hall hqs (by simp)⟩
      · have hone : (Wildcard.any :: qs).all isAny ≠ true := by simpa [isAny] using hall
        have htwo : (Wildcard.any :: .any :: qs).all isAny ≠ true := by simpa [isAny] using hall
        rw [asSearched_cons htwo, asSearched_cons hone, search_step hall fun v => ih v]
        simp only [mem_languageOf_any]
        constructor
        · rintro ⟨v, hsuffix, hv⟩
          exact ⟨v, hsuffix, v, List.suffix_rfl, hv⟩
        · rintro ⟨u, hu, v, hsuffix, hv⟩
          exact ⟨v, hsuffix.trans hu, hv⟩
  | case4 qs w hnext ih =>
      by_cases hall : qs.all isAny = true
      · have hqs : qs = [] := by
          rcases qs with _ | ⟨_ | _, qs⟩
          · rfl
          · simp [isAny] at hall
          · exact absurd rfl (hnext qs)
        subst hqs
        refine iff_of_true (.inl rfl) (mem_languageOf_all_any ?_ ?_ w)
        · simp [asSearched, isAny]
        · simp [asSearched]
      · have hone : (Wildcard.any :: qs).all isAny ≠ true := by simpa [isAny] using hall
        rw [asSearched_cons hone, search_step hall fun v => ih v, mem_languageOf_any]

end Wildcard

end Baulk.Support
