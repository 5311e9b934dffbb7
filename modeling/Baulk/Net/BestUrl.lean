import Baulk.Core.Wide
import Baulk.Support.Cut
import Mathlib.Data.List.TakeWhile

/-!
# Choosing a mirror

A package may have several addresses.  One that ends with `#` and the locale of
the user is taken first; otherwise the address to which the connection is
established fastest is meant to be taken.  The loop does not keep the shortest
time so far, and the name of the locale has the NUL at its end.
-/

namespace Baulk.Net

/-! ## The locale -/

/-- `GetUserDefaultLocaleName`: the length with the NUL, and the buffer. -/
def getUserDefaultLocaleName (locale : WString) (cch : Nat) : Nat × WString :=
  if locale.length + 1 ≤ cch then
    (locale.length + 1,
      locale ++ 0 :: List.replicate (cch - (locale.length + 1)) 0)
  else (0, List.replicate cch 0)

def defaultLocaleName (locale : WString) : WString :=
  let result := getUserDefaultLocaleName locale 64
  if result.1 ≠ 0 ∧ result.1 < 64 then result.2.take result.1 else []

theorem defaultLocaleName_eq (locale : WString) :
    defaultLocaleName locale = if locale.length < 63 then locale ++ [0] else [] := by
  unfold defaultLocaleName getUserDefaultLocaleName
  by_cases hfits : locale.length + 1 ≤ 64
  · simp only [if_pos hfits]
    by_cases hless : locale.length < 63
    · have hlt : locale.length + 1 < 64 := by omega
      rw [if_pos ⟨Nat.succ_ne_zero _, hlt⟩, if_pos hless,
        List.take_length_add_append]
      rfl
    · have hlt : ¬ locale.length + 1 < 64 := by omega
      rw [if_neg fun h => hlt h.2, if_neg hless]
  · have hless : ¬ locale.length < 63 := by omega
    simp only [if_neg hfits]
    rw [if_neg fun h => h.1 rfl, if_neg hless]

/-! ## The choice -/

def maximumTime : UInt64 := 0xFFFFFFFFFFFFFFFF

/-- An address, and what `UrlResponseTime` returns for it. -/
structure Mirror where
  url : WString
  responseTime : UInt64

/-- The address ends with `#` and the locale. -/
def Mirror.isFor (m : Mirror) (locale : WString) : Bool :=
  endsWithIgnoreCase m.url (0x23 :: locale)

/-- The second round of `BestUrlInternal`; `i` is the place of the next address. -/
def fastest (elapsed : UInt64) (pos i : Nat) : List Mirror → Nat
  | [] => pos
  | m :: mirrors =>
      fastest elapsed (if m.responseTime < elapsed then i else pos) (i + 1) mirrors

def bestUrlInternal (mirrors : List Mirror) (locale : WString) : WString :=
  match mirrors with
  | [] => []
  | [m] => m.url
  | mirrors =>
      match mirrors.find? fun m => m.isFor locale with
      | some m => m.url.take (m.url.length - (locale.length + 1))
      | none =>
          match mirrors[fastest maximumTime 0 0 mirrors]? with
          | some m => m.url
          | none => []

def withoutFragment (url : WString) : WString :=
  match url.findIdx? (· == 0x23) with
  | some pos => url.take pos
  | none => url

def bestUrl (mirrors : List Mirror) (locale : WString) : WString :=
  withoutFragment (bestUrlInternal mirrors locale)

/-! ## What the choice is for -/

/-- The address without its fragment. -/
def Mirror.address (m : Mirror) : WString :=
  m.url.takeWhile (· ≠ 0x23)

/-- The first mirror for the locale, or else the first one that no other mirror
is faster than. -/
def bestMirror (mirrors : List Mirror) (locale : WString) : Option Mirror :=
  (mirrors.find? fun m => m.isFor locale).or
    (mirrors.find? fun m => mirrors.all fun x => m.responseTime ≤ x.responseTime)

def lastReachable (mirrors : List Mirror) : Option Mirror :=
  (mirrors.reverse.find? fun m => m.responseTime < maximumTime).or mirrors.head?

/-- The mirrors that differ have the same address. -/
structure MirrorsAgree (mirrors : List Mirror) (locale : WString) : Prop where
  /-- A mirror for the name with the NUL is the best one. -/
  marked : ∀ m, mirrors.find? (fun m => m.isFor (defaultLocaleName locale)) =
    some m → some m.address = (bestMirror mirrors locale).map Mirror.address
  /-- Without one, the last reachable mirror is the best one. -/
  unmarked : mirrors.find? (fun m => m.isFor (defaultLocaleName locale)) = none →
    (lastReachable mirrors).map Mirror.address =
      (bestMirror mirrors locale).map Mirror.address

/-! ## Fragments -/

theorem withoutFragment_eq (url : WString) :
    withoutFragment url = url.takeWhile (· ≠ 0x23) := by
  unfold withoutFragment
  rcases Support.cut_cases url (0x23 : WChar) with h | ⟨front, back, rfl, h⟩
  · rw [Support.findIdx?_eq_none_iff_not_mem.mpr h]
    symm
    rw [List.takeWhile_eq_self_iff]
    intro x hx
    exact decide_eq_true fun heq => h (heq ▸ hx)
  · rw [Support.findIdx?_append_cons h]
    simp only [List.take_left]
    rw [List.takeWhile_append_of_pos, List.takeWhile_cons_of_neg, List.append_nil]
    · simp
    · intro x hx
      exact decide_eq_true fun heq => h (heq ▸ hx)

/-- Only `#` is `#` in another case. -/
theorem asciiToLower_eq_hash {c : WChar} (h : asciiToLower c = 0x23) : c = 0x23 := by
  unfold asciiToLower at h
  split at h
  · rename_i hupper
    have hle : (0x41 : UInt16).toNat ≤ c.toNat := UInt16.le_iff_toNat_le.mp hupper.1
    have hge : c.toNat ≤ (0x5A : UInt16).toNat := UInt16.le_iff_toNat_le.mp hupper.2
    have hsum := congrArg UInt16.toNat h
    rw [UInt16.toNat_add] at hsum
    simp at hle hge hsum
    omega
  · exact h

/-- What comes after the first `#` does not matter. -/
theorem takeWhile_append_hash (front back : WString) :
    (front ++ 0x23 :: back).takeWhile (· ≠ 0x23) =
      front.takeWhile (· ≠ (0x23 : WChar)) := by
  induction front with
  | nil => exact List.takeWhile_cons_of_neg (by simp)
  | cons c front ih =>
      rw [List.cons_append]
      by_cases hc : c = 0x23
      · rw [List.takeWhile_cons_of_neg (by simpa using hc),
          List.takeWhile_cons_of_neg (by simpa using hc)]
      · rw [List.takeWhile_cons_of_pos (by simpa using hc),
          List.takeWhile_cons_of_pos (by simpa using hc), ih]

theorem withoutFragment_of_isFor {m : Mirror} {locale : WString}
    (h : m.isFor locale = true) :
    withoutFragment (m.url.take (m.url.length - (locale.length + 1))) =
      m.address := by
  unfold Mirror.isFor endsWithIgnoreCase at h
  rw [Bool.and_eq_true, equalsIgnoreCase_iff, List.length_cons] at h
  have hsuffix := h.2
  unfold Mirror.address
  rw [withoutFragment_eq]
  have hurl := List.take_append_drop (m.url.length - (locale.length + 1)) m.url
  cases hback : m.url.drop (m.url.length - (locale.length + 1)) with
  | nil =>
      rw [hback] at hsuffix
      cases hsuffix
  | cons c back =>
      rw [hback, List.map_cons, List.map_cons] at hsuffix
      have hc : c = 0x23 := asciiToLower_eq_hash (List.cons.inj hsuffix).1
      rw [hback, hc] at hurl
      conv_rhs => rw [← hurl, takeWhile_append_hash]

/-! ## The rounds -/

theorem fastest_cases (elapsed : UInt64) (pos i : Nat) (mirrors : List Mirror) :
    ((∀ m ∈ mirrors, ¬ m.responseTime < elapsed) ∧
        fastest elapsed pos i mirrors = pos) ∨
      ∃ front m back, mirrors = front ++ m :: back ∧ m.responseTime < elapsed ∧
        (∀ x ∈ back, ¬ x.responseTime < elapsed) ∧
        fastest elapsed pos i mirrors = i + front.length := by
  induction mirrors generalizing pos i with
  | nil => exact .inl ⟨fun m hm => absurd hm List.not_mem_nil, rfl⟩
  | cons m mirrors ih =>
      rw [fastest]
      rcases ih (if m.responseTime < elapsed then i else pos) (i + 1) with
        ⟨hnone, heq⟩ | ⟨front, x, back, rfl, hx, hback, heq⟩
      · by_cases hm : m.responseTime < elapsed
        · rw [if_pos hm] at heq ⊢
          exact .inr ⟨[], m, mirrors, rfl, hm, hnone, heq⟩
        · rw [if_neg hm] at heq ⊢
          exact .inl ⟨List.forall_mem_cons.mpr ⟨hm, hnone⟩, heq⟩
      · refine .inr ⟨m :: front, x, back, rfl, hx, hback, heq.trans ?_⟩
        rw [List.length_cons]
        omega

/-- The second round takes the last mirror that can be reached. -/
theorem getElem?_fastest (mirrors : List Mirror) :
    mirrors[fastest maximumTime 0 0 mirrors]? = lastReachable mirrors := by
  unfold lastReachable
  rcases fastest_cases maximumTime 0 0 mirrors with
    ⟨hnone, heq⟩ | ⟨front, m, back, rfl, hm, hback, heq⟩
  · have hfind : mirrors.reverse.find?
        (fun m => decide (m.responseTime < maximumTime)) = none := by
      rw [List.find?_eq_none]
      intro m hm
      rw [decide_eq_true_eq]
      exact hnone m (List.mem_reverse.mp hm)
    rw [heq, hfind, Option.none_or, List.head?_eq_getElem?]
  · have hfind : (front ++ m :: back).reverse.find?
        (fun m => decide (m.responseTime < maximumTime)) = some m := by
      have hnone : back.reverse.find?
          (fun m => decide (m.responseTime < maximumTime)) = none := by
        rw [List.find?_eq_none]
        intro x hx
        rw [decide_eq_true_eq]
        exact hback x (List.mem_reverse.mp hx)
      rw [List.reverse_append, List.reverse_cons, List.append_assoc,
        List.find?_append, hnone, Option.none_or, List.singleton_append]
      exact List.find?_cons_of_pos (by simpa using hm)
    rw [heq, hfind, Nat.zero_add, List.getElem?_append_right le_rfl,
      Nat.sub_self]
    rfl

theorem bestUrl_eq {mirrors : List Mirror} (h : 2 ≤ mirrors.length)
    (locale : WString) :
    some (bestUrl mirrors locale) =
      ((mirrors.find? fun m => m.isFor locale).or (lastReachable mirrors)).map
        Mirror.address := by
  unfold bestUrl bestUrlInternal
  match mirrors, h with
  | m :: m' :: mirrors, _ =>
      simp only
      rw [getElem?_fastest]
      cases hfind : (m :: m' :: mirrors).find? fun m => m.isFor locale with
      | some m =>
          rw [Option.some_or, Option.map_some]
          have hfor := List.find?_some hfind
          exact congrArg some (withoutFragment_of_isFor hfor)
      | none =>
          rw [Option.none_or]
          cases hlast : lastReachable (m :: m' :: mirrors) with
          | some m => exact congrArg some (withoutFragment_eq m.url)
          | none =>
              unfold lastReachable at hlast
              rw [Option.or_eq_none_iff] at hlast
              cases hlast.2

/-- The best mirror is taken exactly if the mirrors that differ have the same
address. -/
theorem bestUrl_best_iff (mirrors : List Mirror) (locale : WString)
    (h : 2 ≤ mirrors.length) :
    some (bestUrl mirrors (defaultLocaleName locale)) =
        (bestMirror mirrors locale).map Mirror.address ↔
      MirrorsAgree mirrors locale := by
  rw [bestUrl_eq h]
  cases hfind : mirrors.find? fun m => m.isFor (defaultLocaleName locale) with
  | some m =>
      rw [Option.some_or, Option.map_some]
      constructor
      · intro heq
        refine ⟨fun m' hm' => ?_, fun hnone => ?_⟩
        · rw [hfind, Option.some.injEq] at hm'
          exact hm' ▸ heq
        · rw [hfind] at hnone
          cases hnone
      · intro hagree
        exact hagree.marked m hfind
  | none =>
      rw [Option.none_or]
      constructor
      · intro heq
        refine ⟨fun m' hm' => ?_, fun _ => heq⟩
        rw [hfind] at hm'
        cases hm'
      · intro hagree
        exact hagree.unmarked hfind

theorem bestUrl_best_iff_two :
    some (bestUrl [⟨wide "https://a", 5⟩, ⟨wide "https://b", 1⟩]
        (defaultLocaleName (wide "en-US"))) =
        (bestMirror [⟨wide "https://a", 5⟩, ⟨wide "https://b", 1⟩]
          (wide "en-US")).map Mirror.address ↔
      MirrorsAgree [⟨wide "https://a", 5⟩, ⟨wide "https://b", 1⟩] (wide "en-US") :=
  bestUrl_best_iff _ _ (by decide)

/-- The first mirror is faster, but the last one is taken. -/
theorem bestUrl_slower :
    ¬ ∀ (mirrors : List Mirror) (locale : WString), 2 ≤ mirrors.length →
      some (bestUrl mirrors (defaultLocaleName locale)) =
        (bestMirror mirrors locale).map Mirror.address := by
  intro h
  have heq := h [⟨wide "https://a", 1⟩, ⟨wide "https://b", 5⟩] (wide "en-US")
    (by decide)
  exact absurd heq (by decide)

end Baulk.Net
