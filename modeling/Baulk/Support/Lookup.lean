import Mathlib.Data.List.Nodup
import Mathlib.Data.List.Perm.Basic

/-!
# Lists of pairs as maps

A map that is filled by insertions which keep what is there.  It is observed by
`List.lookup`, and the order of its pairs does not matter.
-/

namespace Baulk.Support

variable {κ ω : Type} [BEq κ] [LawfulBEq κ]

def KeysNodup (l : List (κ × ω)) : Prop :=
  (l.map Prod.fst).Nodup

theorem KeysNodup.cons {p : κ × ω} {l : List (κ × ω)} (h : KeysNodup (p :: l)) :
    l.lookup p.1 = none ∧ KeysNodup l := by
  unfold KeysNodup at h
  rw [List.map_cons, List.nodup_cons] at h
  refine ⟨List.lookup_eq_none_iff.mpr ?_, h.2⟩
  intro q hq
  rw [bne_iff_ne]
  exact fun heq => h.1 (heq ▸ List.mem_map_of_mem hq)

theorem KeysNodup.lookup_eq_some_iff {l : List (κ × ω)} (h : KeysNodup l) {k : κ} {v : ω} :
    l.lookup k = some v ↔ (k, v) ∈ l := by
  induction l with
  | nil => simp
  | cons p l ih =>
      obtain ⟨hnone, hl⟩ := h.cons
      rw [List.lookup_cons, List.mem_cons]
      by_cases hk : k = p.1
      · subst hk
        rw [beq_self_eq_true]
        constructor
        · intro hv
          cases hv
          exact .inl rfl
        · rintro (hp | hmem)
          · rw [← hp]
          · rw [(ih hl).mpr hmem] at hnone
            cases hnone
      · rw [beq_eq_false_iff_ne.mpr hk]
        rw [ih hl]
        exact ⟨.inr, fun hmem => hmem.resolve_left fun hp => hk (by rw [← hp])⟩

theorem KeysNodup.lookup_perm {l l' : List (κ × ω)} (h : KeysNodup l) (hperm : l'.Perm l)
    (k : κ) : l'.lookup k = l.lookup k := by
  have h' : KeysNodup l' := (hperm.map Prod.fst).nodup_iff.mpr h
  ext v
  rw [h'.lookup_eq_some_iff, h.lookup_eq_some_iff, hperm.mem_iff]

/-- Insert a pair unless the key is there. -/
def insertNew (l : List (κ × ω)) (k : κ) (v : ω) : List (κ × ω) :=
  if l.any (fun p => p.1 == k) then l else l ++ [(k, v)]

theorem any_key_iff {l : List (κ × ω)} {k : κ} :
    l.any (fun p => p.1 == k) = true ↔ k ∈ l.map Prod.fst := by
  simp only [List.any_eq_true, beq_iff_eq, List.mem_map]

theorem lookup_insertNew (l : List (κ × ω)) (k k' : κ) (v : ω) :
    (insertNew l k v).lookup k' = (l.lookup k').or (if k' == k then some v else none) := by
  unfold insertNew
  split
  · next hkey =>
    by_cases hk : k' = k
    · subst hk
      obtain ⟨p, hp, hpk⟩ := List.mem_map.mp (any_key_iff.mp hkey)
      have hsome : (l.lookup k').isSome = true :=
        List.lookup_isSome_iff.mpr ⟨p, hp, beq_iff_eq.mpr hpk.symm⟩
      obtain ⟨w, hw⟩ := Option.isSome_iff_exists.mp hsome
      rw [hw]
      rfl
    · rw [beq_eq_false_iff_ne.mpr hk, if_neg Bool.false_ne_true, Option.or_none]
  · rw [List.lookup_append, List.lookup_cons, List.lookup_nil]
    cases k' == k <;> rfl

theorem KeysNodup.insertNew {l : List (κ × ω)} (h : KeysNodup l) (k : κ) (v : ω) :
    KeysNodup (insertNew l k v) := by
  unfold Support.insertNew
  split
  · exact h
  · next hkey =>
    unfold KeysNodup
    rw [List.map_append, List.nodup_append_comm, List.map_singleton, List.singleton_append,
      List.nodup_cons]
    exact ⟨fun hmem => hkey (any_key_iff.mpr hmem), h⟩

/-- Insert pairs in order. -/
def insertAll (l pairs : List (κ × ω)) : List (κ × ω) :=
  pairs.foldl (fun l p => Support.insertNew l p.1 p.2) l

/-- What was there is kept, and of the new values for a key the first one. -/
theorem lookup_insertAll (l pairs : List (κ × ω)) (k : κ) :
    (insertAll l pairs).lookup k = (l.lookup k).or (pairs.lookup k) := by
  induction pairs generalizing l with
  | nil => rw [List.lookup_nil, Option.or_none]; rfl
  | cons p pairs ih =>
      rw [insertAll, List.foldl_cons, ← insertAll, ih, lookup_insertNew, Option.or_assoc,
        List.lookup_cons]
      cases k == p.1 <;> rfl

end Baulk.Support
