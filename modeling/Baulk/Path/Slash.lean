import Baulk.Path.Windows

/-!
# `path::operator/=` on texts

A path keeps its text, so that joining shows where a separator is written and
which one.  The components of a path are joined one after the other to the same
text as all at once, unless one of them has a root name of its own, as `c:` has.
-/

namespace Baulk.WinPath

open Support (components)

/-- The text begins with a separator. -/
def startsWithSeparator (s : WString) : Bool :=
  (s.head?.map isPathSeparator).getD false

def endsWithSeparator (s : WString) : Bool :=
  (s.getLast?.map isPathSeparator).getD false

/-- What `operator/=` writes behind the left operand.  A root name needs a
separator unless it is a drive, and anything else unless there is one. -/
def glue (p : WString) : WString :=
  if rootNameLength p = p.length then if 3 ≤ p.length then [0x5C] else []
  else if endsWithSeparator p then [] else [0x5C]

/-- `path::operator/`, of texts. -/
def slash (p q : WString) : WString :=
  let n := rootNameLength p
  let m := rootNameLength q
  if (ofText q).isAbsolute then q
  else if m ≠ 0 ∧ p.take n ≠ q.take m then q
  else if startsWithSeparator (q.drop m) then p.take n ++ q.drop m
  else p ++ glue p ++ q.drop m

/-- The texts that `path::iterator` goes over: the root name, the root directory,
the names, and an empty text after a separator at the end. -/
def elements (s : WString) : List WString :=
  let rest := s.drop (rootNameLength s)
  (if rootNameLength s = 0 then [] else [s.take (rootNameLength s)]) ++
    (if startsWithSeparator rest then [rest.takeWhile isPathSeparator] else []) ++
    (ofText s).parts ++ if (ofText s).trailing then [[]] else []

example : slash (wide "C:\\a/") (wide "b/c") = wide "C:\\a/b/c" ∧
    slash (wide "D:\\a") (wide "C:b") = wide "C:b" ∧
    slash (wide "D:\\a") (wide "/b") = wide "D:/b" ∧
    elements (wide "a//b/") = [wide "a", wide "b", []] := by
  decide

/-- There is neither a root name nor a root directory. -/
def Rootless (s : WString) : Prop :=
  rootNameLength s = 0 ∧ startsWithSeparator s = false

instance (s : WString) : Decidable (Rootless s) :=
  inferInstanceAs (Decidable (_ ∧ _))

theorem rootless_nil : Rootless [] :=
  And.intro rfl rfl

theorem slash_of_rootless {q : WString} (p : WString) (h : Rootless q) :
    slash p q = p ++ glue p ++ q := by
  have hname : (ofText q).rootName = [] := by
    change q.take (rootNameLength q) = []
    rw [h.1, List.take_zero]
  have habsolute : (ofText q).isAbsolute = false := by
    unfold isAbsolute
    rw [hname]
    rfl
  unfold slash
  dsimp only
  rw [habsolute, h.1, List.drop_zero, h.2]
  rfl

theorem isPathSeparator_of_isDriveLetter {d : WChar} (h : isDriveLetter d = true) :
    isPathSeparator d = false := by
  cases hsep : isPathSeparator d with
  | false => rfl
  | true =>
      simp only [isPathSeparator, Bool.or_eq_true, beq_iff_eq] at hsep
      rcases hsep with rfl | rfl
      · exact absurd h (by decide)
      · exact absurd h (by decide)

theorem eq_drive_of_rootNameLength {t : WString} (hall : rootNameLength t = t.length)
    (hshort : t.length < 3) (hne : t ≠ []) :
    ∃ d, t = [d, 0x3A] ∧ isDriveLetter d = true := by
  match t with
  | [] => exact absurd rfl hne
  | [_] => exact absurd hall Nat.zero_ne_one
  | [d, y] =>
      by_cases hdrive : (isDriveLetter d && y == 0x3A) = true
      · rw [Bool.and_eq_true, beq_iff_eq] at hdrive
        exact ⟨d, by rw [hdrive.2], hdrive.1⟩
      · simp [rootNameLength, hdrive] at hall
  | _ :: _ :: _ :: t =>
      rw [List.length_cons, List.length_cons, List.length_cons] at hshort
      omega

theorem glue_of_not_endsWithSeparator {t : WString} (hlast : endsWithSeparator t = false)
    (hlong : rootNameLength t = t.length → 3 ≤ t.length) : glue t = [0x5C] := by
  unfold glue
  split
  · next hall => rw [if_pos (hlong hall)]
  · rw [hlast]
    rfl

/-- A component that stays a component wherever it stands. -/
structure IsName (c : WString) : Prop where
  ne_nil : c ≠ []
  no_separator : ∀ x ∈ c, isPathSeparator x = false
  no_root : rootNameLength c = 0

namespace IsName

variable {c : WString}

theorem startsWithSeparator (h : IsName c) : startsWithSeparator c = false := by
  obtain ⟨x, c, rfl⟩ := List.exists_cons_of_ne_nil h.ne_nil
  exact h.no_separator x List.mem_cons_self

theorem rootless (h : IsName c) : Rootless c :=
  And.intro h.no_root h.startsWithSeparator

theorem endsWithSeparator_append (h : IsName c) (p : WString) :
    endsWithSeparator (p ++ c) = false := by
  have hlast : (p ++ c).getLast? = some (c.getLast h.ne_nil) := by
    rw [List.getLast?_append_of_ne_nil _ h.ne_nil, List.getLast?_eq_getLast_of_ne_nil h.ne_nil]
  unfold endsWithSeparator
  rw [hlast]
  exact h.no_separator _ (List.getLast_mem h.ne_nil)

theorem rootless_append (h : IsName c) (t : WString) : Rootless (c ++ 0x5C :: t) := by
  obtain ⟨x, c, rfl⟩ := List.exists_cons_of_ne_nil h.ne_nil
  have hx : isPathSeparator x = false := h.no_separator x List.mem_cons_self
  refine And.intro ?_ hx
  cases c with
  | nil => simp [rootNameLength, hx]
  | cons y c =>
      have hdrive : (isDriveLetter x && y == 0x3A) = false := by
        have hroot := h.no_root
        by_contra hdrive
        rw [Bool.not_eq_false] at hdrive
        simp [rootNameLength, hdrive] at hroot
      simp [rootNameLength, hdrive, hx]

/-- A name behind a path is never glued without a separator. -/
theorem glue_append (h : IsName c) (p : WString) : glue (p ++ glue p ++ c) = [0x5C] := by
  have hlong : rootNameLength (p ++ glue p ++ c) = (p ++ glue p ++ c).length →
      3 ≤ (p ++ glue p ++ c).length := fun hall => by
    by_contra hshort
    have hc := List.length_pos_iff.mpr h.ne_nil
    obtain ⟨d, hd, hdrive⟩ := eq_drive_of_rootNameLength hall (by omega)
      (fun hnil => h.ne_nil (List.append_eq_nil_iff.mp hnil).2)
    match p with
    | [] =>
        have heq : c = [d, 0x3A] := hd
        have hroot := h.no_root
        rw [heq] at hroot
        simp [rootNameLength, hdrive] at hroot
    | [x] =>
        have hx : x = d := (List.cons.inj hd).1
        have hlast : endsWithSeparator [x] = false :=
          hx ▸ isPathSeparator_of_isDriveLetter hdrive
        have hglue : glue [x] = [0x5C] :=
          glue_of_not_endsWithSeparator hlast fun hone => absurd hone Nat.zero_ne_one
        have hlength := congrArg List.length hd
        rw [hglue] at hlength
        simp only [List.length_append, List.length_cons, List.length_nil] at hlength
        omega
    | x :: y :: p =>
        have hlength := congrArg List.length hd
        simp only [List.length_append, List.length_cons, List.length_nil] at hlength
        omega
  exact glue_of_not_endsWithSeparator (h.endsWithSeparator_append _) hlong

end IsName

/-! ## One after the other -/

theorem joinParts_cons (c d : WString) (cs : List WString) :
    joinParts (c :: d :: cs) = c ++ 0x5C :: joinParts (d :: cs) := by
  simp [joinParts, List.intercalate]

/-- Names, of which the last may be an empty one. -/
inductive AreNames : List WString → Prop where
  | single {c : WString} : IsName c ∨ c = [] → AreNames [c]
  | cons {c : WString} {cs : List WString} : IsName c → AreNames cs → AreNames (c :: cs)

theorem AreNames.ne_nil {cs : List WString} (h : AreNames cs) : cs ≠ [] := by
  cases h <;> exact List.cons_ne_nil _ _

theorem AreNames.rootless {cs : List WString} (h : AreNames cs) : Rootless (joinParts cs) := by
  cases h with
  | @single c hc =>
      have hjoin : joinParts [c] = c := by simp [joinParts, List.intercalate]
      rw [hjoin]
      rcases hc with hc | rfl
      · exact hc.rootless
      · exact rootless_nil
  | @cons c cs hc hcs =>
      obtain ⟨d, cs, rfl⟩ := List.exists_cons_of_ne_nil hcs.ne_nil
      rw [joinParts_cons]
      exact hc.rootless_append _

theorem foldl_slash {cs : List WString} (h : AreNames cs) (root : WString) :
    cs.foldl slash root = slash root (joinParts cs) := by
  induction h generalizing root with
  | @single c hc =>
      have hjoin : joinParts [c] = c := by simp [joinParts, List.intercalate]
      rw [hjoin]
      rfl
  | @cons c cs hc hcs ih =>
      obtain ⟨d, cs, rfl⟩ := List.exists_cons_of_ne_nil hcs.ne_nil
      rw [List.foldl_cons, ih, joinParts_cons, slash_of_rootless _ hcs.rootless,
        slash_of_rootless _ hc.rootless, slash_of_rootless _ (hc.rootless_append _),
        hc.glue_append]
      simp only [List.append_assoc, List.singleton_append]

end Baulk.WinPath
