import Mathlib.Data.List.Induction
import Mathlib.Data.List.Nodup

/-!
# First occurrences

A list of things with keys, where only the first thing for each key is kept.
-/

namespace Baulk.Support

variable {α β : Type} [DecidableEq β]

/-- Add a thing at the end, unless there is one with the same key. -/
def addFirst (key : α → β) (acc : List α) (x : α) : List α :=
  if key x ∈ acc.map key then acc else acc ++ [x]

/-- The first thing for each key, in order. -/
def firsts (key : α → β) (l : List α) : List α :=
  l.foldl (addFirst key) []

section Firsts

variable (key : α → β)

theorem mem_keys_firsts (l : List α) (k : β) :
    k ∈ (firsts key l).map key ↔ k ∈ l.map key := by
  induction l using List.reverseRecOn with
  | nil => exact Iff.rfl
  | append_singleton l x ih =>
      rw [firsts, List.foldl_append, List.foldl_cons, List.foldl_nil, ← firsts,
        addFirst, List.map_append, List.mem_append, ← ih]
      by_cases hx : key x ∈ (firsts key l).map key
      · rw [if_pos hx]
        constructor
        · exact .inl
        · rintro (h | h)
          · exact h
          · rw [List.map_singleton, List.mem_singleton] at h
            rwa [h]
      · rw [if_neg hx, List.map_append, List.mem_append]

theorem firsts_concat (l : List α) (x : α) :
    firsts key (l ++ [x]) =
      if key x ∈ l.map key then firsts key l else firsts key l ++ [x] := by
  rw [firsts, List.foldl_append, List.foldl_cons, List.foldl_nil, ← firsts,
    addFirst]
  exact if_congr (mem_keys_firsts key l (key x)) rfl rfl

theorem mem_of_mem_firsts {l : List α} {x : α} (h : x ∈ firsts key l) : x ∈ l := by
  induction l using List.reverseRecOn with
  | nil => exact h
  | append_singleton l y ih =>
      rw [firsts_concat] at h
      split_ifs at h
      · exact List.mem_append_left _ (ih h)
      · exact (List.mem_append.mp h).elim (fun h => List.mem_append_left _ (ih h))
          (List.mem_append_right _)

theorem nodup_keys_firsts (l : List α) : ((firsts key l).map key).Nodup := by
  induction l using List.reverseRecOn with
  | nil => exact List.nodup_nil
  | append_singleton l x ih =>
      rw [firsts_concat]
      by_cases hx : key x ∈ l.map key
      · rwa [if_pos hx]
      · rw [if_neg hx, List.map_append, List.nodup_append_comm,
          List.map_singleton, List.singleton_append, List.nodup_cons,
          mem_keys_firsts]
        exact ⟨hx, ih⟩

theorem firsts_eq_append {l a b : List α} {x : α}
    (h : firsts key l = a ++ x :: b) :
    ∃ a' b', l = a' ++ x :: b' ∧ firsts key a' = a ∧
      key x ∉ a'.map key := by
  induction l using List.reverseRecOn generalizing b with
  | nil => simp [firsts] at h
  | append_singleton l y ih =>
      rw [firsts_concat] at h
      by_cases hy : key y ∈ l.map key
      · rw [if_pos hy] at h
        obtain ⟨a', b', rfl, ha, hx⟩ := ih h
        exact ⟨a', b' ++ [y], by simp, ha, hx⟩
      · rw [if_neg hy] at h
        rcases List.eq_nil_or_concat b with rfl | ⟨b₁, z, rfl⟩
        · obtain ⟨rfl, hxy⟩ := List.append_inj' h rfl
          cases hxy
          exact ⟨l, [], rfl, rfl, hy⟩
        · rw [List.concat_eq_append, ← List.cons_append, ← List.append_assoc] at h
          obtain ⟨hl, -⟩ := List.append_inj' h rfl
          obtain ⟨a', b', rfl, ha, hx⟩ := ih hl
          exact ⟨a', b' ++ [y], by simp, ha, hx⟩

theorem firsts_append_cons {a : List α} {x : α} (h : key x ∉ a.map key)
    (b : List α) :
    ∃ b', firsts key (a ++ x :: b) = firsts key a ++ x :: b' := by
  induction b using List.reverseRecOn with
  | nil => exact ⟨[], by rw [firsts_concat, if_neg h]⟩
  | append_singleton b y ih =>
      obtain ⟨b', hb⟩ := ih
      rw [← List.cons_append, ← List.append_assoc, firsts_concat]
      by_cases hy : key y ∈ (a ++ x :: b).map key
      · exact ⟨b', by rw [if_pos hy, hb]⟩
      · exact ⟨b' ++ [y], by rw [if_neg hy, hb]; simp⟩

theorem exists_first {l : List α} {x : α} (h : x ∈ l) :
    ∃ a y b, l = a ++ y :: b ∧ key y = key x ∧ key x ∉ a.map key := by
  induction l with
  | nil => exact absurd h List.not_mem_nil
  | cons z l ih =>
      by_cases hz : key z = key x
      · exact ⟨[], z, l, rfl, hz, List.not_mem_nil⟩
      · have hmem : x ∈ l := by
          rcases List.mem_cons.mp h with rfl | hmem
          · exact absurd rfl hz
          · exact hmem
        obtain ⟨a, y, b, rfl, hy, ha⟩ := ih hmem
        refine ⟨z :: a, y, b, rfl, hy, ?_⟩
        rw [List.map_cons, List.mem_cons, not_or]
        exact ⟨fun heq => hz heq.symm, ha⟩

/-- Of the things that are kept, one has a key that occurs. -/
theorem length_filter_firsts {l : List α} {k : β} (h : k ∈ l.map key) :
    ((firsts key l).filter fun x => decide (key x = k)).length = 1 := by
  rw [← List.countP_eq_length_filter]
  change List.countP ((· == k) ∘ key) (firsts key l) = 1
  rw [← List.countP_map]
  exact List.count_eq_one_of_mem (nodup_keys_firsts key l)
    ((mem_keys_firsts key l k).mpr h)

/-- Each thing that is kept comes after those that it needs exactly if the first
ones for each key do. -/
theorem firsts_ordered_iff {l : List α} {needs : α → β → Prop} :
    (∀ a x b, firsts key l = a ++ x :: b → ∀ k, needs x k → k ∈ a.map key) ↔
      ∀ a x b, l = a ++ x :: b → key x ∉ a.map key →
        ∀ k, needs x k → k ∈ a.map key := by
  constructor
  · rintro h a x b rfl hx k hk
    obtain ⟨b', hb⟩ := firsts_append_cons key hx b
    exact (mem_keys_firsts key a k).mp (h _ x b' hb k hk)
  · intro h a x b hl k hk
    obtain ⟨a', b', heq, rfl, hx⟩ := firsts_eq_append key hl
    exact (mem_keys_firsts key a' k).mpr (h a' x b' heq hx k hk)

end Firsts

end Baulk.Support
