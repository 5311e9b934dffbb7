import Mathlib.Data.List.Find
import Mathlib.Tactic.Common

/-!
# The running champion of a list

One pass over a list keeps the last element that beat the one kept before it,
starting from a given key.  The relation need not be transitive.  If some
element is at least as good as all others, the pass ends with the first such
element from the point on where the starting key was beaten for the first time.
On a total order it ends with an element that is at least as good as all others
as soon as any element beats the starting key.
-/

namespace Baulk.Support

section Champion

variable {α κ : Type*} (key : α → κ) (beats : κ → κ → Prop) [DecidableRel beats]

/-- The last element that beats the one kept before it. -/
def champion (cur : κ) : List α → Option α
  | [] => none
  | x :: xs =>
      if beats (key x) cur then some ((champion (key x) xs).getD x)
      else champion cur xs

/-- Equal to the other key, or better. -/
def AtLeast (a b : κ) : Prop :=
  a = b ∨ beats a b

variable [DecidableEq κ]

instance (a b : κ) : Decidable (AtLeast beats a b) :=
  inferInstanceAs (Decidable (a = b ∨ beats a b))

/-- An element that is at least as good as all others. -/
def IsGreatest (xs : List α) (c : α) : Prop :=
  ∀ x ∈ xs, AtLeast beats (key c) (key x)

instance (xs : List α) : DecidablePred (IsGreatest key beats xs) :=
  fun c => inferInstanceAs (Decidable (∀ x ∈ xs, AtLeast beats (key c) (key x)))

variable {key beats}

omit [DecidableEq κ] in
theorem mem_of_champion {cur : κ} {xs : List α} {c : α}
    (h : champion key beats cur xs = some c) : c ∈ xs := by
  induction xs generalizing cur with
  | nil => cases h
  | cons x xs ih =>
      rw [champion] at h
      split at h
      · cases hrest : champion key beats (key x) xs with
        | none =>
            rw [hrest] at h
            cases h
            exact List.mem_cons_self
        | some c' =>
            rw [hrest] at h
            cases h
            exact List.mem_cons_of_mem x (ih hrest)
      · exact List.mem_cons_of_mem x (ih h)

omit [DecidableEq κ] in
theorem champion_eq_none_iff {cur : κ} {xs : List α} :
    champion key beats cur xs = none ↔ ∀ x ∈ xs, ¬ beats (key x) cur := by
  induction xs generalizing cur with
  | nil => simp [champion]
  | cons x xs ih =>
      rw [champion, List.forall_mem_cons]
      split
      · rename_i hx
        exact iff_of_false nofun fun h => h.1 hx
      · rename_i hx
        rw [ih]
        exact (and_iff_right hx).symm

omit [DecidableEq κ] in
theorem champion_map {β : Type*} (f : β → α) (cur : κ) (xs : List β) :
    champion key beats cur (xs.map f) = (champion (fun x => key (f x)) beats cur xs).map f := by
  induction xs generalizing cur with
  | nil => rfl
  | cons x xs ih =>
      rw [List.map_cons, champion, champion, ih, ih]
      split
      · rw [Option.map_some, Option.some_inj]
        cases champion (fun x => key (f x)) beats (key (f x)) xs with
        | none => rfl
        | some c => rfl
      · rfl

omit [DecidableEq κ] in
theorem champion_append_of_none {cur : κ} {xs : List α} (h : champion key beats cur xs = none)
    (ys : List α) : champion key beats cur (xs ++ ys) = champion key beats cur ys := by
  rw [champion_eq_none_iff] at h
  induction xs with
  | nil => rfl
  | cons x xs ih =>
      rw [List.forall_mem_cons] at h
      rw [List.cons_append, champion, if_neg h.1, ih h.2]

omit [DecidableEq κ] in
/-- Elements that do not beat the starting key can be left out. -/
theorem champion_dropWhile (cur : κ) (xs : List α) :
    champion key beats cur (xs.dropWhile fun x => !decide (beats (key x) cur)) =
      champion key beats cur xs := by
  induction xs with
  | nil => rfl
  | cons x xs ih =>
      by_cases hx : beats (key x) cur
      · rw [List.dropWhile_cons_of_neg (by simpa using hx)]
      · rw [List.dropWhile_cons_of_pos (by simpa using hx), ih, champion,
          if_neg hx]

/-! ## Without transitivity -/

section Asymm

variable (hasymm : ∀ a b, beats a b → ¬ beats b a)
include hasymm

omit [DecidableRel beats] [DecidableEq κ] in
/-- Elements that are at least as good as all others have the same key. -/
theorem isGreatest_iff {xs : List α} {c x : α} (hc : IsGreatest key beats xs c)
    (hcmem : c ∈ xs) (hx : x ∈ xs) :
    IsGreatest key beats xs x ↔ key x = key c := by
  constructor
  · intro hgreatest
    rcases hgreatest c hcmem with heq | hbeats
    · exact heq
    · rcases hc x hx with heq | hbeats'
      · exact heq.symm
      · exact absurd hbeats' (hasymm _ _ hbeats)
  · intro heq y hy
    rw [heq]
    exact hc y hy

/-- From a key that is not the best one, the pass ends with the first element
that has it. -/
theorem champion_of_find {cur best : κ} {xs : List α}
    (hbest : ∀ x ∈ xs, AtLeast beats best (key x))
    (hcur : beats best cur) {c : α}
    (hfind : xs.find? (fun x => decide (key x = best)) = some c) :
    champion key beats cur xs = some c := by
  induction xs generalizing cur with
  | nil => cases hfind
  | cons x xs ih =>
      rw [List.forall_mem_cons] at hbest
      rw [champion]
      by_cases hx : key x = best
      · rw [List.find?_cons_of_pos (by simpa using hx)] at hfind
        cases hfind
        rw [if_pos (by rwa [hx])]
        have hnone : champion key beats (key c) xs = none := by
          rw [champion_eq_none_iff]
          intro y hy hbeats
          rw [hx] at hbeats
          rcases hbest.2 y hy with heq | hbeats'
          · rw [← heq] at hbeats
            exact hasymm _ _ hbeats hbeats
          · exact hasymm _ _ hbeats hbeats'
        rw [hnone]
        rfl
      · rw [List.find?_cons_of_neg (by simpa using hx)] at hfind
        have hbeats : beats best (key x) :=
          hbest.1.resolve_left fun h => hx h.symm
        split
        · rw [ih hbest.2 hbeats hfind]
          rfl
        · exact ih hbest.2 hcur hfind

/-- The pass ends with the first element that is at least as good as all others
exactly if that element is still the first one behind the elements that do not
beat the starting key. -/
theorem champion_eq_greatest_iff {bottom : κ} {xs : List α} {c : α}
    (hc : xs.find? (fun x => decide (IsGreatest key beats xs x)) = some c) :
    champion key beats bottom xs = some c ↔
      (xs.dropWhile fun x => !decide (beats (key x) bottom)).find?
        (fun x => decide (IsGreatest key beats xs x)) = some c := by
  have hgreatest : IsGreatest key beats xs c := by
    simpa using List.find?_some hc
  have hcmem := List.mem_of_find?_eq_some hc
  have hsub : ∀ x ∈ xs.dropWhile (fun x => !decide (beats (key x) bottom)),
      x ∈ xs := fun x hx => (List.dropWhile_sublist _).subset hx
  rw [← champion_dropWhile]
  have hhead : ∀ y ys, xs.dropWhile (fun x => !decide (beats (key x) bottom)) =
      y :: ys → beats (key y) bottom := by
    intro y ys h
    have hy := List.head?_dropWhile_not
      (fun x => !decide (beats (key x) bottom)) xs
    rw [h] at hy
    simpa using hy
  generalize xs.dropWhile (fun x => !decide (beats (key x) bottom)) = ds
    at hsub hhead
  have hfind : ds.find? (fun x => decide (IsGreatest key beats xs x)) =
      ds.find? (fun x => decide (key x = key c)) := by
    refine List.find?_congr fun x hx => ?_
    rw [decide_eq_decide]
    exact isGreatest_iff hasymm hgreatest hcmem (hsub x hx)
  rw [hfind]
  cases ds with
  | nil => exact iff_of_false nofun nofun
  | cons y ys =>
      rw [List.forall_mem_cons] at hsub
      have hbest : ∀ x ∈ ys, AtLeast beats (key c) (key x) := fun x hx =>
        hgreatest x (hsub.2 x hx)
      rw [champion, if_pos (hhead y ys rfl)]
      by_cases hy : key y = key c
      · have hnone : champion key beats (key y) ys = none := by
          rw [champion_eq_none_iff]
          intro x hx hbeats
          rw [hy] at hbeats
          rcases hbest x hx with heq | hbeats'
          · rw [← heq] at hbeats
            exact hasymm _ _ hbeats hbeats
          · exact hasymm _ _ hbeats hbeats'
        rw [List.find?_cons_of_pos (by simpa using hy), hnone]
        rfl
      · rw [List.find?_cons_of_neg (by simpa using hy)]
        have hbeats : beats (key c) (key y) :=
          (hgreatest y hsub.1).resolve_left fun h => hy h.symm
        cases hrest : ys.find? (fun x => decide (key x = key c)) with
        | some z =>
            rw [champion_of_find hasymm hbest hbeats hrest]
            rfl
        | none =>
            -- No element with the best key is left.
            refine iff_of_false ?_ nofun
            intro hsome
            rw [List.find?_eq_none] at hrest
            rw [Option.some_inj] at hsome
            cases hlast : champion key beats (key y) ys with
            | none =>
                rw [hlast] at hsome
                exact hy (congrArg key hsome)
            | some z =>
                rw [hlast] at hsome
                have hz := hrest z (mem_of_champion hlast)
                rw [decide_eq_true_eq] at hz
                exact hz (congrArg key hsome)

end Asymm

/-! ## On a total order -/

/-- The relation is a strict total order on the keys in question. -/
structure StrictTotalOn (beats : κ → κ → Prop) (s : κ → Prop) : Prop where
  total : ∀ a b, s a → s b → ¬ beats a b → AtLeast beats b a
  trans : ∀ a b c, s a → s b → s c → beats a b → beats b c → beats a c

omit [DecidableRel beats] [DecidableEq κ] in
theorem StrictTotalOn.trans_atLeast {s : κ → Prop} (h : StrictTotalOn beats s)
    {a b c : κ} (ha : s a) (hb : s b) (hc : s c) (hab : beats a b)
    (hbc : AtLeast beats b c) : beats a c := by
  rcases hbc with rfl | hbc
  · exact hab
  · exact h.trans a b c ha hb hc hab hbc

omit [DecidableEq κ] in
/-- The pass ends with an element that beats the starting key and is at least as
good as all others. -/
theorem champion_greatest {s : κ → Prop} (h : StrictTotalOn beats s) {cur : κ}
    {xs : List α} (hcur : s cur) (hxs : ∀ x ∈ xs, s (key x)) {c : α}
    (hc : champion key beats cur xs = some c) :
    beats (key c) cur ∧ IsGreatest key beats xs c := by
  induction xs generalizing cur with
  | nil => cases hc
  | cons x xs ih =>
      rw [List.forall_mem_cons] at hxs
      rw [champion] at hc
      split at hc
      · rename_i hx
        cases hrest : champion key beats (key x) xs with
        | none =>
            rw [hrest] at hc
            cases hc
            rw [champion_eq_none_iff] at hrest
            refine ⟨hx, List.forall_mem_cons.mpr ⟨.inl rfl, ?_⟩⟩
            intro y hy
            exact h.total _ _ (hxs.2 y hy) hxs.1 (hrest y hy)
        | some d =>
            rw [hrest] at hc
            cases hc
            obtain ⟨hd, hgreatest⟩ := ih hxs.1 hxs.2 hrest
            have hdmem := hxs.2 d (mem_of_champion hrest)
            exact ⟨h.trans _ _ _ hdmem hxs.1 hcur hd hx,
              List.forall_mem_cons.mpr ⟨.inr hd, hgreatest⟩⟩
      · rename_i hx
        obtain ⟨hbeats, hgreatest⟩ := ih hcur hxs.2 hc
        have hcmem := hxs.2 c (mem_of_champion hc)
        refine ⟨hbeats, List.forall_mem_cons.mpr ⟨.inr ?_, hgreatest⟩⟩
        exact h.trans_atLeast hcmem hcur hxs.1 hbeats
          (h.total _ _ hxs.1 hcur hx)

theorem find?_dropWhile {p q : α → Bool} {xs : List α}
    (h : ∀ x ∈ xs, p x = true → q x = false) :
    (xs.dropWhile q).find? p = xs.find? p := by
  induction xs with
  | nil => rfl
  | cons x xs ih =>
      rw [List.forall_mem_cons] at h
      cases hq : q x with
      | false => rw [List.dropWhile_cons_of_neg (by simp [hq])]
      | true =>
          have hp : ¬ p x = true := fun hp => by
            rw [h.1 hp] at hq
            cases hq
          rw [List.dropWhile_cons_of_pos hq, List.find?_cons_of_neg hp, ih h.2]

/-- The pass ends with the first element that is at least as good as all others
as soon as any element beats the starting key. -/
theorem exists_champion_greatest_iff {s : κ → Prop}
    (h : StrictTotalOn beats s) (hasymm : ∀ a b, beats a b → ¬ beats b a)
    {bottom : κ} {xs : List α} (hbottom : s bottom)
    (hxs : ∀ x ∈ xs, s (key x)) :
    (∃ c, xs.find? (fun x => decide (IsGreatest key beats xs x)) = some c ∧
      champion key beats bottom xs = some c) ↔
      ∃ x ∈ xs, beats (key x) bottom := by
  constructor
  · rintro ⟨c, -, hc⟩
    exact ⟨c, mem_of_champion hc, (champion_greatest h hbottom hxs hc).1⟩
  · rintro ⟨x, hx, hbeats⟩
    cases hchampion : champion key beats bottom xs with
    | none => exact absurd hbeats (champion_eq_none_iff.mp hchampion x hx)
    | some c =>
        have hcmem := mem_of_champion hchampion
        obtain ⟨hcbeats, hgreatest⟩ :=
          champion_greatest h hbottom hxs hchampion
        cases hfind : xs.find? fun x =>
            decide (IsGreatest key beats xs x) with
        | none =>
            rw [List.find?_eq_none] at hfind
            exact absurd (decide_eq_true hgreatest) (hfind c hcmem)
        | some d =>
            refine ⟨d, rfl, ?_⟩
            rw [← hchampion, champion_eq_greatest_iff hasymm hfind,
              find?_dropWhile, hfind]
            intro y hy hygreatest
            have hkey := (isGreatest_iff hasymm hgreatest hcmem hy).mp
              (of_decide_eq_true hygreatest)
            rw [hkey]
            simpa using hcbeats

end Champion

end Baulk.Support
