import Mathlib.Algebra.GroupWithZero.Nat
import Mathlib.Data.List.Infix
import Mathlib.Data.List.Nodup
import Mathlib.Data.Nat.Init
import Mathlib.Tactic.Tauto

/-!
# Replacing several patterns at once

A text is replaced from left to right.  For every pattern that occurs, the next
place is kept in a list whose first element takes priority: it has the lowest
offset, or the longest pattern among those at this offset.  For patterns of one length
this is a walk from left to right; where all of them are single characters, every
character is replaced on its own.
-/

namespace Baulk.Support

variable {α : Type*}

/-! ## Searching -/

section Find

variable [DecidableEq α]

/-- The first place from `pos` on at which `old` stands. -/
def find (old s : List α) (pos : Nat) : Option Nat :=
  (List.range' pos (s.length + 1 - pos)).find? fun i => old.isPrefixOf (s.drop i)

theorem find_eq_some_iff {old s : List α} {pos i : Nat} :
    find old s pos = some i ↔ pos ≤ i ∧ i ≤ s.length ∧ old <+: s.drop i ∧
      ∀ j, pos ≤ j → j < i → ¬ old <+: s.drop j := by
  have hnot : ∀ j, (! old.isPrefixOf (s.drop j)) = true ↔ ¬ old <+: s.drop j := by
    intro j
    rw [Bool.not_eq_true', ← Bool.not_eq_true, List.isPrefixOf_iff_prefix]
  unfold find
  rw [List.find?_range'_eq_some, List.isPrefixOf_iff_prefix, List.mem_range'_1]
  simp only [hnot]
  constructor
  · rintro ⟨hat, hmem, hfirst⟩
    exact ⟨hmem.1, by omega, hat, hfirst⟩
  · rintro ⟨hpos, hle, hat, hfirst⟩
    exact ⟨hat, ⟨hpos, by omega⟩, hfirst⟩

theorem find_bounds {old s : List α} {pos i : Nat} (h : find old s pos = some i) :
    pos ≤ i ∧ i ≤ s.length := by
  obtain ⟨hpos, hle, -, -⟩ := find_eq_some_iff.mp h
  exact ⟨hpos, hle⟩

theorem find_eq_none_iff {old s : List α} {pos : Nat} (hne : old ≠ []) :
    find old s pos = none ↔ ∀ j, pos ≤ j → ¬ old <+: s.drop j := by
  unfold find
  rw [List.find?_range'_eq_none]
  refine forall_congr' fun j => ?_
  rw [Bool.not_eq_true', ← Bool.not_eq_true, List.isPrefixOf_iff_prefix]
  refine ⟨fun h hpos hat => ?_, fun h hpos _ => h hpos⟩
  have hlt : j < s.length := by
    by_contra hge
    rw [List.drop_eq_nil_of_le (Nat.le_of_not_lt hge), List.prefix_nil] at hat
    exact hne hat
  exact h hpos (by omega) hat

end Find

/-! ## Replacing -/

/-- A pattern, what replaces it, and its next place. -/
structure Substitution (α : Type*) where
  old : List α
  replacement : List α
  offset : Nat
  old_ne : old ≠ []

namespace Substitution

/-- One substitution takes priority over another. -/
def occursBefore (x y : Substitution α) : Bool :=
  if x.offset ≠ y.offset then decide (x.offset < y.offset)
  else decide (y.old.length < x.old.length)

/-- Insert a substitution so that the first one still takes priority. -/
def insert (x : Substitution α) : List (Substitution α) → List (Substitution α)
  | [] => [x]
  | y :: ys => if y.occursBefore x then y :: insert x ys else x :: y :: ys

def addPattern [DecidableEq α] (s : List α) (subs : List (Substitution α))
    (pair : List α × List α) : List (Substitution α) :=
  match find pair.1 s 0 with
  | none => subs
  | some pos =>
      if h : pair.1 = [] then subs else insert ⟨pair.1, pair.2, pos, h⟩ subs

/-- The patterns that occur. -/
def findSubstitutions [DecidableEq α] (s : List α) (pairs : List (List α × List α)) :
    List (Substitution α) :=
  pairs.foldl (addPattern s) []

/-- How many places are left. -/
def ahead (s : List α) (subs : List (Substitution α)) : Nat :=
  (subs.map fun sub => s.length + 2 - sub.offset).sum

theorem ahead_insert (s : List α) (x : Substitution α) (subs : List (Substitution α)) :
    ahead s (insert x subs) = s.length + 2 - x.offset + ahead s subs := by
  induction subs with
  | nil => rfl
  | cons y ys ih =>
      rw [insert]
      split
      · change s.length + 2 - y.offset + ahead s (insert x ys) =
          s.length + 2 - x.offset + (s.length + 2 - y.offset + ahead s ys)
        rw [ih]
        omega
      · rfl

/-- What is replaced at the place of the first substitution, and where the text goes on.
A place that was passed already is skipped. -/
def applyFirst (s : List α) (sub : Substitution α) (pos : Nat) (result : List α) :
    List α × Nat :=
  if pos ≤ sub.offset then
    (if pos ≤ s.length then
        result ++ (s.drop pos).take (sub.offset - pos) ++ sub.replacement
      else result,
      sub.offset + sub.old.length)
  else (result, pos)

theorem lt_applyFirst (s : List α) (sub : Substitution α) (pos : Nat) (result : List α) :
    sub.offset < (applyFirst s sub pos result).2 := by
  have hne := List.length_pos_iff.mpr sub.old_ne
  unfold applyFirst
  split
  · dsimp only
    omega
  · dsimp only
    omega

theorem length_insert (x : Substitution α) (subs : List (Substitution α)) :
    (insert x subs).length = subs.length + 1 := by
  induction subs with
  | nil => rfl
  | cons y ys ih =>
      rw [insert]
      split
      · rw [List.length_cons, ih, List.length_cons]
      · rfl

/-- Replace from `pos` on. -/
def applySubstitutions [DecidableEq α] (s : List α) :
    List (Substitution α) → Nat → List α → List α
  | [], pos, result => result ++ s.drop pos
  | sub :: subs, pos, result =>
      match _hfind : find sub.old s (applyFirst s sub pos result).2 with
      | none =>
          applySubstitutions s subs (applyFirst s sub pos result).2
            (applyFirst s sub pos result).1
      | some offset =>
          applySubstitutions s (insert { sub with offset := offset } subs)
            (applyFirst s sub pos result).2 (applyFirst s sub pos result).1
  termination_by subs => ahead s subs + subs.length
  decreasing_by
    · change ahead s subs + subs.length <
        s.length + 2 - sub.offset + ahead s subs + (subs.length + 1)
      omega
    · have hbounds := find_bounds _hfind
      have hlt := lt_applyFirst s sub pos result
      rw [ahead_insert, length_insert]
      change s.length + 2 - offset + ahead s subs + (subs.length + 1) <
        s.length + 2 - sub.offset + ahead s subs + (subs.length + 1)
      omega

/-! ## From left to right -/

section Scan

variable [DecidableEq α]

/-- The pattern at the beginning of a text. -/
def patternAt (pairs : List (List α × List α)) (s : List α) : Option (List α × List α) :=
  pairs.find? fun p => p.1.isPrefixOf s

/-- Replace from left to right; `skip` elements still belong to the last pattern. -/
def scanFrom (pairs : List (List α × List α)) : Nat → List α → List α
  | _, [] => []
  | skip + 1, _ :: s => scanFrom pairs skip s
  | 0, c :: s =>
      match patternAt pairs (c :: s) with
      | some p => p.2 ++ scanFrom pairs (p.1.length - 1) s
      | none => c :: scanFrom pairs 0 s

/-- Replace from left to right. -/
def scan (pairs : List (List α × List α)) (s : List α) : List α :=
  scanFrom pairs 0 s

variable {pairs : List (List α × List α)} {s : List α} {pos : Nat}

theorem scanFrom_eq_drop (skip : Nat) (s : List α) :
    scanFrom pairs skip s = scan pairs (s.drop skip) := by
  induction s generalizing skip with
  | nil => cases skip <;> rfl
  | cons c s ih =>
      cases skip with
      | zero => rfl
      | succ skip => exact ih skip

theorem scan_of_none {c : α} (h : patternAt pairs (c :: s) = none) :
    scan pairs (c :: s) = c :: scan pairs s := by
  rw [scan, scanFrom, h]
  rfl

theorem scan_of_some {p : List α × List α} (h : patternAt pairs s = some p)
    (hne : p.1 ≠ []) : scan pairs s = p.2 ++ scan pairs (s.drop p.1.length) := by
  cases s with
  | nil =>
      have hat := List.find?_some h
      rw [List.isPrefixOf_iff_prefix, List.prefix_nil] at hat
      exact absurd hat hne
  | cons c s =>
      obtain ⟨n, hn⟩ := Nat.exists_eq_succ_of_ne_zero
        (Nat.ne_of_gt (List.length_pos_iff.mpr hne))
      rw [scan, scanFrom, h]
      dsimp only
      rw [scanFrom_eq_drop, hn]
      rfl

theorem patternAt_eq_none_iff :
    patternAt pairs s = none ↔ ∀ p ∈ pairs, ¬ p.1 <+: s := by
  unfold patternAt
  rw [List.find?_eq_none]
  refine forall₂_congr fun p _ => ?_
  rw [List.isPrefixOf_iff_prefix]

theorem scan_drop_of_none {i : Nat} (hpos : pos ≤ i) (hi : i ≤ s.length)
    (hnone : ∀ j, pos ≤ j → j < i → patternAt pairs (s.drop j) = none) :
    scan pairs (s.drop pos) = (s.drop pos).take (i - pos) ++ scan pairs (s.drop i) := by
  induction i, hpos using Nat.le_induction with
  | base => rw [Nat.sub_self, List.take_zero, List.nil_append]
  | succ i hle ih =>
      have hi' : i < s.length := hi
      have hsucc : i + 1 - pos = (i - pos) + 1 := by omega
      have hget : (s.drop pos)[i - pos]? = some s[i] := by
        rw [List.getElem?_drop, Nat.add_sub_cancel' hle, List.getElem?_eq_getElem hi']
      have hhere := hnone i hle (Nat.lt_succ_self i)
      rw [List.drop_eq_getElem_cons hi'] at hhere
      rw [ih (Nat.le_of_lt hi') fun j hj hlt => hnone j hj (Nat.lt_succ_of_lt hlt),
        List.drop_eq_getElem_cons hi', scan_of_none hhere, hsucc, List.take_add_one, hget,
        List.append_assoc]
      rfl

theorem scan_cases (hne : ∀ p ∈ pairs, p.1 ≠ []) (s : List α) :
    scan pairs s = s ∨ ∃ p ∈ pairs, ∃ a b, s = a ++ (p.1 ++ b) ∧
      scan pairs s = a ++ (p.2 ++ scan pairs b) := by
  induction s with
  | nil => exact .inl rfl
  | cons c s ih =>
      cases hat : patternAt pairs (c :: s) with
      | some p =>
          have hp : p ∈ pairs := List.mem_of_find?_eq_some hat
          have hprefix :=
            List.find?_some (p := fun p : List α × List α => p.1.isPrefixOf (c :: s)) hat
          rw [List.isPrefixOf_iff_prefix] at hprefix
          obtain ⟨b, hb⟩ := hprefix
          refine .inr ⟨p, hp, [], b, hb.symm, ?_⟩
          rw [scan_of_some hat (hne p hp), ← hb, List.drop_left]
          rfl
      | none =>
          rw [scan_of_none hat]
          rcases ih with hsame | ⟨p, hp, a, b, hs, hscan⟩
          · rw [hsame]
            exact .inl rfl
          · refine .inr ⟨p, hp, c :: a, b, ?_, ?_⟩
            · rw [hs]
              rfl
            · rw [hscan]
              rfl

/-- What a replacement keeps in a text, whatever stands around it, all of them keep. -/
theorem scan_preserves {P : List α → Prop} (hne : ∀ p ∈ pairs, p.1 ≠ [])
    (hP : ∀ p ∈ pairs, ∀ a b b', (P b ↔ P b') → (P (a ++ (p.1 ++ b)) ↔ P (a ++ (p.2 ++ b'))))
    (s : List α) : P (scan pairs s) ↔ P s := by
  induction hn : s.length using Nat.strongRecOn generalizing s with
  | _ n ih =>
      rcases scan_cases hne s with hsame | ⟨p, hp, a, b, hs, hscan⟩
      · rw [hsame]
      · have hpositive := List.length_pos_iff.mpr (hne p hp)
        have hshort : b.length < n := by
          rw [← hn, hs, List.length_append, List.length_append]
          omega
        rw [hscan, hs]
        exact (hP p hp a b (scan pairs b) (ih b.length hshort b rfl).symm).symm

end Scan

/-- Patterns of one length, each with one replacement. -/
structure Uniform (pairs : List (List α × List α)) : Prop where
  ne_nil : ∀ p ∈ pairs, p.1 ≠ []
  length_eq : ∀ p ∈ pairs, ∀ q ∈ pairs, p.1.length = q.1.length
  snd_eq : ∀ p ∈ pairs, ∀ q ∈ pairs, p.1 = q.1 → p.2 = q.2

theorem Uniform.patternAt_eq [DecidableEq α] {pairs : List (List α × List α)} {s : List α}
    {p : List α × List α} (h : Uniform pairs) (hp : p ∈ pairs) (hps : p.1 <+: s) :
    patternAt pairs s = some p := by
  cases hat : patternAt pairs s with
  | none => exact absurd hps (patternAt_eq_none_iff.mp hat p hp)
  | some q =>
      unfold patternAt at hat
      have hq := List.mem_of_find?_eq_some hat
      have hqs := List.find?_some hat
      rw [List.isPrefixOf_iff_prefix] at hqs
      have hle := Nat.le_of_eq (h.length_eq q hq p hp)
      have hqp := List.prefix_of_prefix_length_le hqs hps hle
      have hfst : q.1 = p.1 := hqp.eq_of_length (h.length_eq q hq p hp)
      exact congrArg some (Prod.ext hfst (h.snd_eq q hq p hp hfst))

theorem mem_insert {x y : Substitution α} {subs : List (Substitution α)} :
    y ∈ insert x subs ↔ y = x ∨ y ∈ subs := by
  induction subs with
  | nil => simp [insert]
  | cons z zs ih =>
      rw [insert]
      split
      · rw [List.mem_cons, ih, List.mem_cons]
        tauto
      · rw [List.mem_cons]

/-- The next places are in order. -/
def Sorted (subs : List (Substitution α)) : Prop :=
  subs.Pairwise fun x y => x.offset ≤ y.offset

theorem Sorted.insert {x : Substitution α} {subs : List (Substitution α)} (h : Sorted subs)
    (hlength : ∀ y ∈ subs, y.old.length = x.old.length) : Sorted (insert x subs) := by
  induction subs with
  | nil => exact List.pairwise_singleton _ _
  | cons y ys ih =>
      obtain ⟨hle, hys⟩ := List.pairwise_cons.mp h
      rw [Substitution.insert]
      split
      · next hbefore =>
        refine List.pairwise_cons.mpr ⟨fun z hz => ?_,
          ih hys fun z hz => hlength z (List.mem_cons_of_mem _ hz)⟩
        rcases mem_insert.mp hz with rfl | hz
        · unfold occursBefore at hbefore
          split at hbefore
          · exact Nat.le_of_lt (of_decide_eq_true hbefore)
          · next heq => exact Nat.le_of_eq (not_not.mp heq)
        · exact hle z hz
      · next hnot =>
        have hxy : x.offset ≤ y.offset := by
          by_contra hlt
          rw [Nat.not_le] at hlt
          apply hnot
          unfold occursBefore
          rw [if_pos (Nat.ne_of_lt hlt)]
          exact decide_eq_true hlt
        refine List.pairwise_cons.mpr ⟨fun z hz => ?_, h⟩
        rcases List.mem_cons.mp hz with rfl | hz
        · exact hxy
        · exact Nat.le_trans hxy (hle z hz)

section Apply

/-- The list is ready for the text from `pos` on: its patterns are some of `pairs`, each at
its next place or at one that was passed, and none of the patterns `keys` is missing. -/
structure Ready (pairs : List (List α × List α)) (s : List α) (keys : List (List α))
    (subs : List (Substitution α)) (pos : Nat) : Prop where
  sorted : Sorted subs
  pair : ∀ sub ∈ subs, (sub.old, sub.replacement) ∈ pairs
  occurs : ∀ sub ∈ subs, sub.old <+: s.drop sub.offset
  next : ∀ sub ∈ subs, ∀ i, pos ≤ i → i < sub.offset → ¬ sub.old <+: s.drop i
  complete : ∀ old ∈ keys, (∃ sub ∈ subs, sub.old = old) ∨
    ∀ i, pos ≤ i → ¬ old <+: s.drop i

variable {pairs : List (List α × List α)} {s : List α} {keys : List (List α)}
  {sub : Substitution α} {subs : List (Substitution α)} {pos pos' : Nat}

theorem Ready.mono (h : Ready pairs s keys subs pos) (hle : pos ≤ pos') :
    Ready pairs s keys subs pos' where
  sorted := h.sorted
  pair := h.pair
  occurs := h.occurs
  next y hy i hi := h.next y hy i (Nat.le_trans hle hi)
  complete old hold := (h.complete old hold).imp_right
    fun hnone i hi => hnone i (Nat.le_trans hle hi)

variable [DecidableEq α]

theorem Ready.insert (hpairs : Uniform pairs) (h : Ready pairs s keys subs pos)
    (sub : Substitution α) (hpair : (sub.old, sub.replacement) ∈ pairs)
    (hnext : find sub.old s pos = some sub.offset) :
    Ready pairs s (sub.old :: keys) (Substitution.insert sub subs) pos where
  sorted := h.sorted.insert fun y hy => hpairs.length_eq _ (h.pair y hy) _ hpair
  pair y hy := by
    rcases mem_insert.mp hy with rfl | hy
    · exact hpair
    · exact h.pair y hy
  occurs y hy := by
    rcases mem_insert.mp hy with rfl | hy
    · exact (find_eq_some_iff.mp hnext).2.2.1
    · exact h.occurs y hy
  next y hy := by
    rcases mem_insert.mp hy with rfl | hy
    · exact (find_eq_some_iff.mp hnext).2.2.2
    · exact h.next y hy
  complete old hold := by
    rcases List.mem_cons.mp hold with rfl | hold
    · exact .inl ⟨sub, mem_insert.mpr (.inl rfl), rfl⟩
    · rcases h.complete old hold with ⟨y, hy, hyold⟩ | hnone
      · exact .inl ⟨y, mem_insert.mpr (.inr hy), hyold⟩
      · exact .inr hnone

/-- Without its first substitution the list is ready but for this pattern. -/
theorem Ready.tail (h : Ready pairs s keys (sub :: subs) pos) :
    Ready pairs s (keys.filter (· ≠ sub.old)) subs pos where
  sorted := (List.pairwise_cons.mp h.sorted).2
  pair y hy := h.pair y (List.mem_cons_of_mem _ hy)
  occurs y hy := h.occurs y (List.mem_cons_of_mem _ hy)
  next y hy := h.next y (List.mem_cons_of_mem _ hy)
  complete old hold := by
    obtain ⟨hmem, hne⟩ := List.mem_filter.mp hold
    rcases h.complete old hmem with ⟨y, hy, hyold⟩ | hnone
    · rcases List.mem_cons.mp hy with rfl | hy
      · exact absurd hyold.symm (of_decide_eq_true hne)
      · exact .inl ⟨y, hy, hyold⟩
    · exact .inr hnone

/-- What is complete for all but one pattern and for this one is complete. -/
theorem Ready.of_filter {old : List α} (h : Ready pairs s (keys.filter (· ≠ old)) subs pos)
    (hold : (∃ sub ∈ subs, sub.old = old) ∨ ∀ i, pos ≤ i → ¬ old <+: s.drop i) :
    Ready pairs s keys subs pos where
  sorted := h.sorted
  pair := h.pair
  occurs := h.occurs
  next := h.next
  complete old' hold' := by
    by_cases heq : old' = old
    · rw [heq]
      exact hold
    · exact h.complete old' (List.mem_filter.mpr ⟨hold', decide_eq_true heq⟩)

theorem Ready.patternAt_eq_none (h : Ready pairs s (pairs.map Prod.fst) subs pos) {i : Nat}
    (hpos : pos ≤ i) (hbefore : ∀ sub ∈ subs, i < sub.offset) :
    patternAt pairs (s.drop i) = none := by
  rw [patternAt_eq_none_iff]
  intro p hp hat
  rcases h.complete p.1 (List.mem_map_of_mem hp) with ⟨y, hy, hold⟩ | hnone
  · exact h.next y hy i hpos (hbefore y hy) (hold ▸ hat)
  · exact hnone i hpos hat

/-- The first substitution does what the walk from left to right does. -/
theorem Ready.applyFirst (hpairs : Uniform pairs)
    (h : Ready pairs s (pairs.map Prod.fst) (sub :: subs) pos) (result : List α) :
    pos ≤ (applyFirst s sub pos result).2 ∧
      (Substitution.applyFirst s sub pos result).1 ++
          scan pairs (s.drop (Substitution.applyFirst s sub pos result).2) =
        result ++ scan pairs (s.drop pos) := by
  have hoccurs := h.occurs sub List.mem_cons_self
  have hlength : sub.offset ≤ s.length := by
    by_contra hlong
    rw [List.drop_eq_nil_of_le (by omega), List.prefix_nil] at hoccurs
    exact sub.old_ne hoccurs
  unfold Substitution.applyFirst
  by_cases hpos : pos ≤ sub.offset
  · have hbetween : ∀ j, pos ≤ j → j < sub.offset → patternAt pairs (s.drop j) = none := by
      intro j hj hlt
      refine h.patternAt_eq_none hj fun y hy => ?_
      rcases List.mem_cons.mp hy with rfl | hy
      · exact hlt
      · exact Nat.lt_of_lt_of_le hlt ((List.pairwise_cons.mp h.sorted).1 y hy)
    have hhere := hpairs.patternAt_eq (h.pair sub List.mem_cons_self) hoccurs
    rw [if_pos hpos, if_pos (by omega)]
    refine ⟨by dsimp only; omega, ?_⟩
    rw [scan_drop_of_none hpos hlength hbetween, scan_of_some hhere sub.old_ne, List.drop_drop]
    simp only [List.append_assoc]
  · -- the place was passed by another pattern
    rw [if_neg hpos]
    exact ⟨Nat.le_refl _, rfl⟩

/-- From a ready list on, the text is replaced from left to right. -/
theorem Ready.applySubstitutions (hpairs : Uniform pairs)
    (h : Ready pairs s (pairs.map Prod.fst) subs pos) (result : List α) :
    applySubstitutions s subs pos result = result ++ scan pairs (s.drop pos) := by
  induction subs, pos, result using applySubstitutions.induct s with
  | case1 pos result =>
      rw [Substitution.applySubstitutions]
      by_cases hpos : pos ≤ s.length
      · have hnone : ∀ j, pos ≤ j → j < s.length → patternAt pairs (s.drop j) = none :=
          fun j hj _ => h.patternAt_eq_none hj nofun
        have hall : (s.drop pos).length ≤ s.length - pos := Nat.le_of_eq List.length_drop
        rw [scan_drop_of_none hpos (Nat.le_refl _) hnone, List.take_of_length_le hall,
          List.drop_length]
        exact congrArg (result ++ ·) (List.append_nil _).symm
      · rw [List.drop_eq_nil_of_le (by omega)]
        rfl
  | case2 sub subs pos result hfind ih =>
      obtain ⟨hle, hsame⟩ := h.applyFirst hpairs result
      have hnone := (find_eq_none_iff sub.old_ne).mp hfind
      have hready := ((h.mono hle).tail).of_filter (.inr hnone)
      rw [Substitution.applySubstitutions]
      split
      · rw [ih hready, hsame]
      · next hsome =>
        rw [hfind] at hsome
        cases hsome
  | case3 sub subs pos result offset hfind ih =>
      obtain ⟨hle, hsame⟩ := h.applyFirst hpairs result
      have hready := ((h.mono hle).tail).insert hpairs { sub with offset := offset }
        (h.pair sub List.mem_cons_self) hfind
      rw [Substitution.applySubstitutions]
      split
      · next hnone =>
        rw [hfind] at hnone
        cases hnone
      · next offset' hsome =>
        rw [hfind] at hsome
        cases hsome
        rw [← hsame]
        refine ih ⟨hready.sorted, hready.pair, hready.occurs, hready.next, fun old hold => ?_⟩
        by_cases heq : old = sub.old
        · exact hready.complete old (heq ▸ List.mem_cons_self)
        · exact hready.complete old (List.mem_cons_of_mem _
            (List.mem_filter.mpr ⟨hold, decide_eq_true heq⟩))

theorem ready_findSubstitutions (hpairs : Uniform pairs) :
    Ready pairs s (pairs.map Prod.fst) (findSubstitutions s pairs) 0 := by
  -- the induction is on the pairs that are still to be added; `keys` are those before
  have hfold : ∀ (more : List (List α × List α)) (keys : List (List α))
      (subs : List (Substitution α)), (∀ p ∈ more, p ∈ pairs) → Ready pairs s keys subs 0 →
      Ready pairs s (more.reverse.map Prod.fst ++ keys) (more.foldl (addPattern s) subs) 0 := by
    intro more
    induction more with
    | nil => exact fun keys subs _ h => h
    | cons p more ih =>
        intro keys subs hmore h
        have hpair := hmore p List.mem_cons_self
        have hne := hpairs.ne_nil p hpair
        rw [List.reverse_cons, List.map_append, List.append_assoc, List.foldl_cons]
        refine ih (p.1 :: keys) _ (fun q hq => hmore q (List.mem_cons_of_mem _ hq)) ?_
        unfold addPattern
        cases hfind : find p.1 s 0 with
        | none =>
            have hnone := (find_eq_none_iff hne).mp hfind
            refine ⟨h.sorted, h.pair, h.occurs, h.next, fun old hold => ?_⟩
            rcases List.mem_cons.mp hold with rfl | hold
            · exact .inr hnone
            · exact h.complete old hold
        | some offset =>
            dsimp only
            rw [dif_neg hne]
            exact h.insert hpairs ⟨p.1, p.2, offset, hne⟩ hpair hfind
  have hempty : Ready pairs s [] [] 0 :=
    ⟨List.Pairwise.nil, nofun, nofun, nofun, nofun⟩
  have hready := hfold pairs [] [] (fun p hp => hp) hempty
  refine ⟨hready.sorted, hready.pair, hready.occurs, hready.next, fun old hold => ?_⟩
  refine hready.complete old ?_
  rw [List.append_nil, List.map_reverse, List.mem_reverse]
  exact hold

end Apply

end Substitution

open Substitution

def replaceAll [DecidableEq α] (pairs : List (List α × List α)) (s : List α) : List α :=
  Substitution.applySubstitutions s (Substitution.findSubstitutions s pairs) 0 []

theorem replaceAll_eq_scan [DecidableEq α] {pairs : List (List α × List α)} (h : Uniform pairs)
    (s : List α) : replaceAll pairs s = scan pairs s :=
  (ready_findSubstitutions h).applySubstitutions h []

/-! ## Patterns of one character -/

theorem uniform_singletons {pairs : List (α × α)} {f : α → α}
    (hpairs : ∀ p ∈ pairs, f p.1 = p.2) : Uniform (pairs.map fun p => ([p.1], [p.2])) := by
  refine ⟨?_, ?_, ?_⟩
  · intro p hp
    obtain ⟨p, -, rfl⟩ := List.mem_map.mp hp
    exact List.cons_ne_nil _ _
  · intro p hp q hq
    obtain ⟨p', -, rfl⟩ := List.mem_map.mp hp
    obtain ⟨q', -, rfl⟩ := List.mem_map.mp hq
    rfl
  · intro p hp q hq heq
    obtain ⟨p', hp', rfl⟩ := List.mem_map.mp hp
    obtain ⟨q', hq', rfl⟩ := List.mem_map.mp hq
    have hfst : p'.1 = q'.1 := List.singleton_inj.mp heq
    have hsnd : p'.2 = q'.2 := by rw [← hpairs p' hp', ← hpairs q' hq', hfst]
    exact congrArg ([·]) hsnd

/-- Patterns of one character are replaced as if each character was looked up. -/
theorem replaceAll_singletons [DecidableEq α] {pairs : List (α × α)} {f : α → α}
    (hpairs : ∀ p ∈ pairs, f p.1 = p.2) (hrest : ∀ c, c ∉ pairs.map Prod.fst → f c = c)
    (s : List α) : replaceAll (pairs.map fun p => ([p.1], [p.2])) s = s.map f := by
  have huniform := uniform_singletons hpairs
  rw [replaceAll_eq_scan huniform]
  induction s with
  | nil => rfl
  | cons c s ih =>
      by_cases hc : c ∈ pairs.map Prod.fst
      · obtain ⟨p, hp, rfl⟩ := List.mem_map.mp hc
        have hat : patternAt (pairs.map fun p => ([p.1], [p.2])) (p.1 :: s) =
            some ([p.1], [p.2]) :=
          huniform.patternAt_eq (List.mem_map.mpr ⟨p, hp, rfl⟩) ⟨s, rfl⟩
        rw [scan_of_some hat (List.cons_ne_nil _ _), List.map_cons, hpairs p hp]
        exact congrArg (p.2 :: ·) ih
      · have hat : patternAt (pairs.map fun p => ([p.1], [p.2])) (c :: s) = none := by
          rw [patternAt_eq_none_iff]
          intro p hp hprefix
          obtain ⟨q, hq, rfl⟩ := List.mem_map.mp hp
          obtain ⟨t, heq⟩ := hprefix
          exact hc (List.mem_map.mpr ⟨q, hq, (List.cons.inj heq).1⟩)
        rw [scan_of_none hat, ih, List.map_cons, hrest c hc]

end Baulk.Support
