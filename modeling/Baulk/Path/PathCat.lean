import Baulk.Path.Windows
import Mathlib.Data.List.TakeWhile

/-!
# Putting paths together

`PathCat` takes a path apart into its root and its components, follows `.` and `..`, and puts
the rest together with backslashes.  The simulated environments normalise the folders of `PATH`
with it, once when they read the variable and once more when the folders are organised.
-/

namespace Baulk

open Support (components descend descend_of_plain components_append_cons
  components_of_forall_not_sep mem_components sublist_of_mem_components mem_collapse
  collapse_of_descend)

/-! ## The code -/

/-- A drive letter with its colon at the start of a text. -/
def hasDrive : WString → Bool
  | a :: b :: _ => b == 0x3A && isDriveLetter a
  | _ => false

/-- One of the prefixes `\\?\` and `\\.\`. -/
def hasDevicePrefix : WString → Bool
  | a :: b :: c :: d :: _ =>
      isPathSeparator a && isPathSeparator b && (c == 0x2E || c == 0x3F) && isPathSeparator d
  | _ => false

/-- The length of a server and its share. -/
def uncRootLen : WString → Nat
  | a :: b :: c :: rest =>
      if isPathSeparator a && isPathSeparator b && !isPathSeparator c && c != 0x2E then
        match rest.dropWhile (!isPathSeparator ·) with
        | _ :: d :: t =>
            if isPathSeparator d || d == 0x2E then 0
            else (rest.takeWhile (!isPathSeparator ·)).length + 4 +
              ((d :: t).takeWhile (!isPathSeparator ·)).length
        | _ => 0
      else 0
  | _ => 0

def pathRootLen (p : WString) : Nat :=
  if hasDrive p then 2
  else if hasDevicePrefix p && 6 ≤ p.length then
    if hasDrive (p.drop 4) then 6 else 4
  else uncRootLen p

/-- The components behind the root.  `SplitPathInternal` stops at a `..` that leads above the
root, with nothing put out; what it returns is not looked at. -/
def pathParts (p : WString) : List WString :=
  (descend dotName dotdotName [] (components isPathSeparator (p.drop (pathRootLen p)))).getD []

/-- The loop that puts components behind a text. -/
def joinBehind (s : WString) (parts : List WString) : WString :=
  parts.foldl (fun s part => if s = [] then part else s ++ 0x5C :: part) s

/-- `parth_cat_pieces`. -/
def pathCatPieces (p0 : WString) (pieces : List WString) : WString :=
  let parts := pieces.foldlM
    (fun parts p => descend dotName dotdotName parts (components isPathSeparator p)) (pathParts p0)
  match parts with
  | none => dotName
  | some parts => joinBehind (p0.take (pathRootLen p0)) parts

/-- `PathCat` of one path. -/
def pathCat (p : WString) : WString :=
  pathCatPieces p []

example : pathCat (wide "C:/a\\.\\b\\..\\\\c/") = wide "C:\\a\\c" ∧
    pathCat (wide "\\\\s\\share/x") = wide "\\\\s\\share\\x" ∧
    pathCat (wide "\\x\\y") = wide "x\\y" := by
  decide

/-! ## Putting components together -/

theorem pathCat_eq (p : WString) :
    pathCat p = joinBehind (p.take (pathRootLen p)) (pathParts p) := rfl

/-- A component of a path. -/
def IsPart (part : WString) : Prop :=
  part ≠ [] ∧ (∀ c ∈ part, isPathSeparator c = false) ∧ part ≠ dotName ∧ part ≠ dotdotName

theorem mem_pathParts {p part : WString} (h : part ∈ pathParts p) :
    part ∈ components isPathSeparator (p.drop (pathRootLen p)) ∧ part ≠ dotName ∧
      part ≠ dotdotName := by
  unfold pathParts at h
  cases hparts : descend dotName dotdotName []
      (components isPathSeparator (p.drop (pathRootLen p))) with
  | none =>
      rw [hparts] at h
      exact absurd h List.not_mem_nil
  | some parts =>
      rw [hparts] at h
      have hcollapse := collapse_of_descend [] hparts
      rw [List.append_nil, List.nil_append] at hcollapse
      rw [Option.getD_some, ← hcollapse] at h
      exact (mem_collapse h).resolve_left List.not_mem_nil

theorem isPart_of_mem_pathParts {p part : WString} (h : part ∈ pathParts p) : IsPart part := by
  obtain ⟨hmem, hdot, hdotdot⟩ := mem_pathParts h
  obtain ⟨hne, hsep⟩ := mem_components hmem
  exact ⟨hne, hsep, hdot, hdotdot⟩

theorem mem_of_mem_pathParts {p part : WString} (h : part ∈ pathParts p) {c : WChar}
    (hc : c ∈ part) : c ∈ p :=
  List.mem_of_mem_drop ((sublist_of_mem_components (mem_pathParts h).1).mem hc)

theorem joinBehind_eq {s : WString} (h : s ≠ []) (parts : List WString) :
    joinBehind s parts = s ++ parts.flatMap (0x5C :: ·) := by
  induction parts generalizing s with
  | nil => exact (List.append_nil s).symm
  | cons part parts ih =>
      have hne : s ++ 0x5C :: part ≠ [] := by simp
      have hcons : joinBehind s (part :: parts) = joinBehind (s ++ 0x5C :: part) parts := by
        rw [joinBehind, List.foldl_cons, if_neg h]
        rfl
      rw [hcons, ih hne, List.flatMap_cons, List.append_assoc]

theorem joinBehind_nil_cons (part : WString) (parts : List WString) :
    joinBehind [] (part :: parts) = joinBehind part parts := by
  rw [joinBehind, List.foldl_cons, if_pos rfl]
  rfl

theorem components_slash (s : WString) :
    components isPathSeparator (0x5C :: s) = components isPathSeparator s := by
  have hsep : isPathSeparator 0x5C = true := by decide
  have hnil := components_append_cons ([] : WString) s hsep
  rw [List.nil_append] at hnil
  rw [hnil]
  rfl

theorem components_flatMap {parts : List WString} (h : ∀ part ∈ parts, IsPart part) :
    components isPathSeparator (parts.flatMap (0x5C :: ·)) = parts := by
  have hsep : isPathSeparator 0x5C = true := by decide
  have hbehind {part : WString} (hpart : IsPart part) {parts : List WString} :
      components isPathSeparator (part ++ parts.flatMap (0x5C :: ·)) =
        part :: components isPathSeparator (parts.flatMap (0x5C :: ·)) := by
    cases parts with
    | nil =>
        rw [List.flatMap_nil, List.append_nil, components_of_forall_not_sep hpart.1 hpart.2.1]
        rfl
    | cons other parts =>
        rw [List.flatMap_cons, List.cons_append, components_append_cons _ _ hsep,
          components_slash, components_of_forall_not_sep hpart.1 hpart.2.1]
        rfl
  induction parts with
  | nil => rfl
  | cons part parts ih =>
      rw [List.flatMap_cons, List.cons_append, components_slash,
        hbehind (h part List.mem_cons_self),
        ih fun other hother => h other (List.mem_cons_of_mem part hother)]

theorem pathParts_of_drop {p : WString} {parts : List WString}
    (h : ∀ part ∈ parts, IsPart part)
    (hparts : components isPathSeparator (p.drop (pathRootLen p)) = parts) :
    pathParts p = parts := by
  rw [pathParts, hparts, descend_of_plain [] fun part hpart => (h part hpart).2.2]
  rfl

/-- A root with components behind it is settled if the root is found again. -/
theorem pathCat_root {root : WString} {parts : List WString} (hroot : root ≠ [])
    (h : ∀ part ∈ parts, IsPart part)
    (hlen : pathRootLen (root ++ parts.flatMap (0x5C :: ·)) = root.length) :
    pathCat (root ++ parts.flatMap (0x5C :: ·)) = root ++ parts.flatMap (0x5C :: ·) := by
  have hparts : pathParts (root ++ parts.flatMap (0x5C :: ·)) = parts := by
    refine pathParts_of_drop h ?_
    rw [hlen, List.drop_left, components_flatMap h]
  rw [pathCat_eq, hparts, hlen, List.take_left, joinBehind_eq hroot]

/-- A result has no characters but those of the path and backslashes. -/
theorem mem_pathCat {p : WString} {c : WChar} (h : c ∈ pathCat p) : c ∈ p ∨ c = 0x5C := by
  have hjoin {s : WString} {parts : List WString} (h : c ∈ joinBehind s parts) :
      c ∈ s ∨ c = 0x5C ∨ ∃ part ∈ parts, c ∈ part := by
    induction parts generalizing s with
    | nil => exact .inl h
    | cons part parts ih =>
        rw [joinBehind, List.foldl_cons] at h
        rcases ih h with hs | hslash | ⟨other, hother, hc⟩
        · split_ifs at hs
          · exact .inr (.inr ⟨part, List.mem_cons_self, hs⟩)
          · rw [List.mem_append, List.mem_cons] at hs
            rcases hs with hs | hs | hs
            · exact .inl hs
            · exact .inr (.inl hs)
            · exact .inr (.inr ⟨part, List.mem_cons_self, hs⟩)
        · exact .inr (.inl hslash)
        · exact .inr (.inr ⟨other, List.mem_cons_of_mem part hother, hc⟩)
  rcases hjoin h with hroot | hslash | ⟨part, hpart, hc⟩
  · exact .inl (List.mem_of_mem_take hroot)
  · exact .inr hslash
  · exact .inl (mem_of_mem_pathParts hpart hc)

/-! ## The roots -/

section Server

variable {a b c s d : WChar} {server share t : WString}

theorem takeWhile_noSep (hserver : ∀ x ∈ server, isPathSeparator x = false)
    (ht : ∀ x, t.head? = some x → isPathSeparator x = true) :
    (server ++ t).takeWhile (!isPathSeparator ·) = server := by
  rw [List.takeWhile_append_of_pos fun x hx => by rw [hserver x hx]; rfl]
  cases t with
  | nil => exact List.append_nil _
  | cons x t =>
      have hx : (!isPathSeparator x) = false := by rw [ht x rfl]; rfl
      rw [List.takeWhile_cons, hx, if_neg Bool.false_ne_true, List.append_nil]

theorem dropWhile_noSep (hserver : ∀ x ∈ server, isPathSeparator x = false)
    (ht : ∀ x, t.head? = some x → isPathSeparator x = true) :
    (server ++ t).dropWhile (!isPathSeparator ·) = t := by
  rw [List.dropWhile_append_of_pos fun x hx => by rw [hserver x hx]; rfl]
  cases t with
  | nil => rfl
  | cons x t =>
      have hx : (!isPathSeparator x) = false := by rw [ht x rfl]; rfl
      rw [List.dropWhile_cons, hx, if_neg Bool.false_ne_true]

/-- A server and its share, whatever follows. -/
structure IsShare (a b c : WChar) (server : WString) (s d : WChar) (share : WString) : Prop where
  front : isPathSeparator a = true ∧ isPathSeparator b = true ∧ isPathSeparator c = false ∧
    c ≠ 0x2E
  server : ∀ x ∈ server, isPathSeparator x = false
  between : isPathSeparator s = true
  share : ∀ x ∈ d :: share, isPathSeparator x = false
  dot : d ≠ 0x2E

theorem IsShare.uncRootLen (h : IsShare a b c server s d share)
    (ht : ∀ x, t.head? = some x → isPathSeparator x = true) :
    uncRootLen (a :: b :: c :: (server ++ s :: (d :: share ++ t))) =
      server.length + 4 + (share.length + 1) := by
  have hs : ∀ x, (s :: (d :: share ++ t)).head? = some x → isPathSeparator x = true := by
    rintro x ⟨⟩
    exact h.between
  have hfront : (isPathSeparator a && isPathSeparator b && !isPathSeparator c && c != 0x2E) =
      true := by
    rw [h.front.1, h.front.2.1, h.front.2.2.1, bne_iff_ne.mpr h.front.2.2.2]
    rfl
  have hd : (isPathSeparator d || d == 0x2E) = false := by
    rw [h.share d List.mem_cons_self, beq_eq_false_iff_ne.mpr h.dot]
    rfl
  have hshare := takeWhile_noSep h.share ht
  rw [Baulk.uncRootLen, if_pos hfront, dropWhile_noSep h.server hs, takeWhile_noSep h.server hs]
  simp only [List.cons_append] at hshare ⊢
  rw [hd, if_neg Bool.false_ne_true, hshare]
  rfl

end Server

/-- A root that is neither a drive nor a device is a server and its share. -/
theorem exists_share {p : WString} (h : uncRootLen p ≠ 0) :
    ∃ a b c server s d share t, p = a :: b :: c :: (server ++ s :: (d :: share ++ t)) ∧
      IsShare a b c server s d share ∧
      ∀ x, t.head? = some x → isPathSeparator x = true := by
  unfold uncRootLen at h
  split at h
  · rename_i a b c rest
    split_ifs at h with hfront
    · split at h
      · rename_i s d t hdrop
        split_ifs at h with hd
        · exact absurd rfl h
        · rw [Bool.and_eq_true, Bool.and_eq_true, Bool.and_eq_true, Bool.not_eq_true',
            bne_iff_ne] at hfront
          obtain ⟨⟨⟨ha, hb⟩, hc⟩, hcdot⟩ := hfront
          rw [Bool.or_eq_true, not_or, beq_iff_eq, Bool.not_eq_true] at hd
          obtain ⟨hdsep, hddot⟩ := hd
          have hsplit := List.takeWhile_append_dropWhile (p := (!isPathSeparator ·)) (l := rest)
          rw [hdrop] at hsplit
          have hshare := List.takeWhile_append_dropWhile (p := (!isPathSeparator ·)) (l := t)
          have hnoSep {u : WString} :
              ∀ x ∈ u.takeWhile (!isPathSeparator ·), isPathSeparator x = false := by
            intro x hx
            simpa using List.mem_takeWhile_imp hx
          have hhead {u v : WString} {y : WChar} (hu : u.dropWhile (!isPathSeparator ·) = v)
              (hy : v.head? = some y) : isPathSeparator y = true := by
            subst hu
            have hnot := List.head?_dropWhile_not (!isPathSeparator ·) u
            rw [hy] at hnot
            simpa using hnot
          refine ⟨a, b, c, rest.takeWhile (!isPathSeparator ·), s, d,
            t.takeWhile (!isPathSeparator ·), t.dropWhile (!isPathSeparator ·), ?_, ?_, ?_⟩
          · rw [List.cons_append, hshare, hsplit]
          · refine ⟨⟨ha, hb, hc, hcdot⟩, hnoSep, hhead hdrop rfl, ?_, hddot⟩
            intro x hx
            rcases List.mem_cons.mp hx with rfl | hx
            · exact hdsep
            · exact hnoSep x hx
          · intro x hx
            exact hhead rfl hx
      · exact absurd rfl h
    · exact absurd rfl h
  · exact absurd rfl h

theorem hasDrive_append {a b : WChar} (s t : WString) :
    hasDrive (a :: b :: s ++ t) = hasDrive (a :: b :: s) := rfl

theorem not_hasDrive_slash (t : WString) : hasDrive (0x5C :: t) = false := by
  have hslash : isDriveLetter 0x5C = false := by decide
  cases t with
  | nil => rfl
  | cons c t => rw [hasDrive, hslash, Bool.and_false]

theorem pathRootLen_device {p t : WString} (hdrive : ¬ hasDrive p = true)
    (hdeviceHead : (hasDevicePrefix p && 6 ≤ p.length) = true)
    (ht : t = [] ∨ ∃ x y, t = 0x5C :: x :: y) (hdevice : t = [] → pathRootLen p ≠ 4) :
    pathRootLen (p.take (pathRootLen p) ++ t) = pathRootLen p := by
  have hshort : hasDevicePrefix p = true ∧ 6 ≤ p.length := by simpa using hdeviceHead
  rcases p with _ | ⟨a, _ | ⟨b, _ | ⟨c, _ | ⟨d, _ | ⟨e, _ | ⟨f, s⟩⟩⟩⟩⟩⟩
  iterate 6 · exact absurd hshort.2 (by simp)
  have hrefound {u : WString} (hu : 2 ≤ u.length) :
      (hasDevicePrefix (a :: b :: c :: d :: u) &&
        6 ≤ (a :: b :: c :: d :: u).length) = true := by
    have hlen : 6 ≤ (a :: b :: c :: d :: u).length := by simpa using hu
    rw [Bool.and_eq_true, decide_eq_true_eq]
    exact ⟨hshort.1, hlen⟩
  by_cases hin : hasDrive (e :: f :: s) = true
  · have hsix : pathRootLen (a :: b :: c :: d :: e :: f :: s) = 6 := by
      rw [pathRootLen, if_neg hdrive, if_pos hdeviceHead]
      exact if_pos hin
    have hu : 2 ≤ (e :: f :: t).length := by simp
    rw [hsix, pathRootLen, if_neg, if_pos, if_pos]
    · exact hin
    · exact hrefound hu
    · exact hdrive
  · have hfour : pathRootLen (a :: b :: c :: d :: e :: f :: s) = 4 := by
      rw [pathRootLen, if_neg hdrive, if_pos hdeviceHead]
      exact if_neg hin
    obtain ⟨x, y, rfl⟩ := ht.resolve_left fun h => hdevice h hfour
    have hu : 2 ≤ ((0x5C : WChar) :: x :: y).length := by simp
    rw [hfour, pathRootLen, if_neg, if_pos, if_neg]
    · rw [Bool.not_eq_true]
      exact not_hasDrive_slash _
    · exact hrefound hu
    · exact hdrive

/-- A server and its share do not become a device by what follows them, unless nothing did. -/
theorem IsShare.not_device {a b c s d : WChar} {server share t u : WString}
    (h : IsShare a b c server s d share)
    (hnone : ¬ (hasDevicePrefix (a :: b :: c :: (server ++ s :: (d :: share ++ u))) &&
      6 ≤ (a :: b :: c :: (server ++ s :: (d :: share ++ u))).length) = true)
    (hbehind : t ≠ [] → u ≠ []) :
    ¬ (hasDevicePrefix (a :: b :: c :: (server ++ s :: (d :: share ++ t))) &&
      6 ≤ (a :: b :: c :: (server ++ s :: (d :: share ++ t))).length) = true := by
  cases server with
  | nil =>
      -- a device prefix with a single character behind it, and nothing more
      intro hnew
      rw [Bool.and_eq_true, decide_eq_true_eq] at hnew
      have hshort : ¬ 6 ≤ (a :: b :: c :: ([] ++ s :: (d :: share ++ u))).length := by
        intro hlong
        apply hnone
        rw [Bool.and_eq_true, decide_eq_true_eq]
        exact ⟨hnew.1, hlong⟩
      simp only [List.length_cons, List.length_append, List.length_nil] at hshort
      have hnil : t = [] := by
        by_contra hne
        have hpos := List.length_pos_iff.mpr (hbehind hne)
        omega
      subst hnil
      have hlong := hnew.2
      simp only [List.length_cons, List.length_append, List.length_nil] at hlong
      omega
  | cons x server =>
      have hx : isPathSeparator x = false := h.server x List.mem_cons_self
      intro hnew
      rw [List.cons_append, hasDevicePrefix, hx, Bool.and_false, Bool.false_and] at hnew
      exact Bool.false_ne_true hnew

theorem pathRootLen_share {p t : WString} (hdrive : ¬ hasDrive p = true)
    (hdeviceHead : ¬ (hasDevicePrefix p && 6 ≤ p.length) = true) (hroot : pathRootLen p ≠ 0)
    (ht : t = [] ∨ ∃ x y, t = 0x5C :: x :: y) (hlen : t ≠ [] → pathRootLen p < p.length) :
    pathRootLen (p.take (pathRootLen p) ++ t) = pathRootLen p := by
  have hunc : pathRootLen p = uncRootLen p := by
    rw [pathRootLen, if_neg hdrive, if_neg hdeviceHead]
  rw [hunc] at hroot hlen ⊢
  obtain ⟨a, b, c, server, s, d, share, u, rfl, hshare, hu⟩ := exists_share hroot
  rw [hshare.uncRootLen hu] at hlen ⊢
  have hsplit : a :: b :: c :: (server ++ s :: (d :: share ++ u)) =
      (a :: b :: c :: (server ++ s :: d :: share)) ++ u := by simp
  have hfront : (a :: b :: c :: (server ++ s :: (d :: share ++ u))).take
        (server.length + 4 + (share.length + 1)) =
      a :: b :: c :: (server ++ s :: d :: share) := by
    rw [hsplit, List.take_left']
    simp only [List.length_cons, List.length_append]
    omega
  have happend : a :: b :: c :: (server ++ s :: d :: share) ++ t =
      a :: b :: c :: (server ++ s :: (d :: share ++ t)) := by simp
  have hbehind : t ≠ [] → u ≠ [] := by
    rintro hne rfl
    have hlt := hlen hne
    simp only [List.length_cons, List.length_append, List.length_nil] at hlt
    omega
  have hsep : ∀ x, t.head? = some x → isPathSeparator x = true := by
    intro z hz
    rcases ht with rfl | ⟨x, y, rfl⟩
    · cases hz
    · rw [List.head?_cons, Option.some.injEq] at hz
      rw [← hz]
      decide
  rw [hfront, happend, pathRootLen, if_neg (hshare.not_device hdeviceHead hbehind),
    hshare.uncRootLen hsep, if_neg]
  exact hdrive

/-- The root of a path is found again, whatever components follow it; a device prefix needs
one. -/
theorem pathRootLen_append {p t : WString} (hroot : pathRootLen p ≠ 0)
    (ht : t = [] ∨ ∃ x y, t = 0x5C :: x :: y) (hlen : t ≠ [] → pathRootLen p < p.length)
    (hdevice : t = [] → pathRootLen p ≠ 4) :
    pathRootLen (p.take (pathRootLen p) ++ t) = pathRootLen p := by
  by_cases hdrive : hasDrive p = true
  · have htwo : pathRootLen p = 2 := by rw [pathRootLen, if_pos hdrive]
    obtain ⟨a, b, s, rfl⟩ : ∃ a b s, p = a :: b :: s := by
      unfold hasDrive at hdrive
      split at hdrive
      · exact ⟨_, _, _, rfl⟩
      · exact absurd hdrive Bool.false_ne_true
    rw [htwo, pathRootLen, if_pos]
    exact hdrive
  · by_cases hdeviceHead : (hasDevicePrefix p && 6 ≤ p.length) = true
    · exact pathRootLen_device hdrive hdeviceHead ht hdevice
    · exact pathRootLen_share hdrive hdeviceHead hroot ht hlen

/-! ## Putting a path together twice -/

/-- Nothing is left behind a device prefix. -/
def BareDevice (p : WString) : Prop :=
  pathRootLen p = 4 ∧ pathParts p = []

/-- A path without a root whose first component starts with a drive, and goes on. -/
def HiddenDrive (p : WString) : Prop :=
  pathRootLen p = 0 ∧ ∃ part, (pathParts p).head? = some part ∧ hasDrive part = true ∧
    2 < part.length

theorem pathRootLen_le (p : WString) : pathRootLen p ≤ p.length := by
  by_cases hunc : pathRootLen p = uncRootLen p
  · by_cases hzero : uncRootLen p = 0
    · rw [hunc, hzero]
      exact Nat.zero_le _
    · obtain ⟨a, b, c, server, s, d, share, t, rfl, hshare, ht⟩ := exists_share hzero
      rw [hunc, hshare.uncRootLen ht]
      simp only [List.length_cons, List.length_append]
      omega
  · unfold pathRootLen at hunc ⊢
    split_ifs at hunc ⊢ with hdrive hdeviceHead
    · unfold hasDrive at hdrive
      split at hdrive
      · simp
      · exact absurd hdrive Bool.false_ne_true
    · exact (by simpa using hdeviceHead : _ ∧ 6 ≤ p.length).2
    · have hsix := (by simpa using hdeviceHead : _ ∧ 6 ≤ p.length).2
      omega
    · exact absurd rfl hunc

theorem hasDevicePrefix_of_four {p : WString} (h : pathRootLen p = 4) :
    hasDevicePrefix p = true := by
  by_contra hdeviceHead
  have hnone : ¬ (hasDevicePrefix p && 6 ≤ p.length) = true := by
    rw [Bool.eq_false_of_not_eq_true hdeviceHead, Bool.false_and]
    exact Bool.false_ne_true
  rw [pathRootLen, if_neg hnone] at h
  split_ifs at h
  · exact absurd h (by decide)
  · have hzero : uncRootLen p ≠ 0 := by
      rw [h]
      decide
    obtain ⟨a, b, c, server, s, d, share, t, rfl, hshare, ht⟩ := exists_share hzero
    rw [hshare.uncRootLen ht] at h
    omega

/-- Without a root in front a path has none, unless it starts with a drive. -/
theorem pathRootLen_noSep {x : WChar} {s : WString} (hx : isPathSeparator x = false)
    (hdrive : hasDrive (x :: s) = false) : pathRootLen (x :: s) = 0 := by
  have hdeviceHead : hasDevicePrefix (x :: s) = false := by
    unfold hasDevicePrefix
    split
    · rename_i heq
      rw [← (List.cons.inj heq).1, hx]
      rfl
    · rfl
  have hunc : uncRootLen (x :: s) = 0 := by
    unfold uncRootLen
    split
    · rename_i heq
      rw [← (List.cons.inj heq).1, hx]
      rfl
    · rfl
  rw [pathRootLen, hdrive, hdeviceHead, hunc]
  rfl

theorem joinBehind_head {parts : List WString} (h : ∀ part ∈ parts, IsPart part) {x : WChar}
    (hx : (joinBehind [] parts).head? = some x) : isPathSeparator x = false := by
  cases parts with
  | nil => cases hx
  | cons part parts =>
      have hpart := h part List.mem_cons_self
      obtain ⟨y, rest, rfl⟩ := List.exists_cons_of_ne_nil hpart.1
      rw [joinBehind_nil_cons, joinBehind_eq hpart.1] at hx
      rw [← Option.some.inj hx]
      exact hpart.2.1 y List.mem_cons_self

theorem pathCat_four {root : WString} (hlen : root.length = 4)
    (hdeviceHead : hasDevicePrefix root = true) : pathCat root ≠ root := by
  obtain ⟨a, b, c, d, rfl⟩ : ∃ a b c d, root = [a, b, c, d] := by
    rcases root with _ | ⟨a, _ | ⟨b, _ | ⟨c, _ | ⟨d, _ | ⟨e, s⟩⟩⟩⟩⟩
    · cases hlen
    · cases hlen
    · cases hlen
    · cases hlen
    · exact ⟨a, b, c, d, rfl⟩
    · simp at hlen
  obtain ⟨⟨⟨ha, hb⟩, -⟩, hd⟩ : ((isPathSeparator a = true ∧ isPathSeparator b = true) ∧ _) ∧
      isPathSeparator d = true := by simpa [hasDevicePrefix] using hdeviceHead
  have hnone : pathRootLen [a, b, c, d] = 0 := by
    have hcolon : b ≠ 0x3A := by
      rintro rfl
      exact absurd hb (by decide)
    have hdrive : hasDrive [a, b, c, d] = false := by
      rw [hasDrive, beq_eq_false_iff_ne.mpr hcolon, Bool.false_and]
    have hunc : uncRootLen [a, b, c, d] = 0 := by
      by_contra hne
      obtain ⟨a', b', c', server, s, d', share, t, heq, -, -⟩ := exists_share hne
      have hlength := congrArg List.length heq
      simp only [List.length_cons, List.length_append, List.length_nil] at hlength
      omega
    rw [pathRootLen, hdrive, hunc, if_neg Bool.false_ne_true, if_neg]
    simp
  intro h
  rw [pathCat_eq, hnone, List.take_zero] at h
  have hhead := joinBehind_head (fun part hpart => isPart_of_mem_pathParts hpart)
    (congrArg List.head? h)
  exact Bool.false_ne_true (hhead.symm.trans ha)

/-- Components without a root are settled, unless a drive is cut off the first one. -/
theorem pathCat_rootless {part : WString} {rest : List WString}
    (h : ∀ other ∈ part :: rest, IsPart other) :
    pathCat (part ++ rest.flatMap (0x5C :: ·)) = part ++ rest.flatMap (0x5C :: ·) ↔
      ¬ (hasDrive part = true ∧ 2 < part.length) := by
  have hpart := h part List.mem_cons_self
  have hrest : ∀ other ∈ rest, IsPart other := fun other hother =>
    h other (List.mem_cons_of_mem part hother)
  by_cases hdrive : hasDrive part = true
  · obtain ⟨a, b, s, rfl⟩ : ∃ a b s, part = a :: b :: s := by
      unfold hasDrive at hdrive
      split at hdrive
      · exact ⟨_, _, _, rfl⟩
      · exact absurd hdrive Bool.false_ne_true
    have htwo : pathRootLen (a :: b :: s ++ rest.flatMap (0x5C :: ·)) = 2 := by
      rw [pathRootLen, hasDrive_append, if_pos hdrive]
    cases s with
    | nil =>
        refine iff_of_true ?_ fun h => absurd h.2 (by simp)
        exact pathCat_root (List.cons_ne_nil _ _) hrest htwo
    | cons x s =>
        refine iff_of_false (fun heq => ?_) fun h => h ⟨hdrive, by simp⟩
        -- the first character behind the drive is no separator, but one is put there
        have hroot : (a :: b :: x :: s ++ rest.flatMap (0x5C :: ·)).take 2 = [a, b] := rfl
        rw [pathCat_eq, htwo, hroot, joinBehind_eq (List.cons_ne_nil a [b])] at heq
        have hbehind : (pathParts (a :: b :: x :: s ++ rest.flatMap (0x5C :: ·))).flatMap
            (0x5C :: ·) = x :: s ++ rest.flatMap (0x5C :: ·) :=
          (List.cons.inj (List.cons.inj heq).2).2
        cases hparts : pathParts (a :: b :: x :: s ++ rest.flatMap (0x5C :: ·)) with
        | nil =>
            rw [hparts] at hbehind
            cases hbehind
        | cons y ys =>
            rw [hparts, List.flatMap_cons] at hbehind
            have hx : x = 0x5C := (List.cons.inj hbehind).1.symm
            have hsep := hpart.2.1 x (by simp)
            rw [hx] at hsep
            exact absurd hsep (by decide)
  · obtain ⟨x, s, rfl⟩ := List.exists_cons_of_ne_nil hpart.1
    have hx : isPathSeparator x = false := hpart.2.1 x List.mem_cons_self
    have hnone : hasDrive (x :: s ++ rest.flatMap (0x5C :: ·)) = false := by
      cases s with
      | nil =>
          cases rest with
          | nil => rfl
          | cons other rest => rfl
      | cons y s => exact Bool.eq_false_of_not_eq_true hdrive
    have hzero : pathRootLen (x :: s ++ rest.flatMap (0x5C :: ·)) = 0 :=
      pathRootLen_noSep hx hnone
    have hall : (x :: s ++ rest.flatMap (0x5C :: ·)) = joinBehind [] ((x :: s) :: rest) := by
      rw [joinBehind_nil_cons, joinBehind_eq (List.cons_ne_nil x s)]
    refine iff_of_true ?_ fun h => hdrive h.1
    have hparts : pathParts (x :: s ++ rest.flatMap (0x5C :: ·)) = (x :: s) :: rest := by
      refine pathParts_of_drop h ?_
      rw [hzero, List.drop_zero]
      have hflat := components_flatMap h
      rw [List.flatMap_cons, List.cons_append, components_slash] at hflat
      exact hflat
    rw [pathCat_eq, hparts, hzero, List.take_zero, ← hall]

/-- `PathCat` leaves its own results alone, but for a bare device prefix and for a drive that
comes to the front. -/
theorem pathCat_pathCat_iff (p : WString) :
    pathCat (pathCat p) = pathCat p ↔ ¬ BareDevice p ∧ ¬ HiddenDrive p := by
  have hparts : ∀ part ∈ pathParts p, IsPart part := fun part h => isPart_of_mem_pathParts h
  by_cases hroot : pathRootLen p = 0
  · have hbare : ¬ BareDevice p := fun h => absurd (hroot.symm.trans h.1) (by decide)
    rw [and_iff_right hbare, pathCat_eq p, hroot, List.take_zero]
    cases hcases : pathParts p with
    | nil =>
        refine iff_of_true rfl fun h => ?_
        obtain ⟨part, hpart, -⟩ := h.2
        rw [hcases] at hpart
        cases hpart
    | cons part rest =>
        rw [hcases] at hparts
        have hhidden : HiddenDrive p ↔ hasDrive part = true ∧ 2 < part.length := by
          unfold HiddenDrive
          rw [hcases, and_iff_right hroot]
          simp
        rw [joinBehind_nil_cons, joinBehind_eq (hparts part List.mem_cons_self).1, hhidden]
        exact pathCat_rootless hparts
  · have hlen : (p.take (pathRootLen p)).length = pathRootLen p := by
      rw [List.length_take]
      exact Nat.min_eq_left (pathRootLen_le p)
    have hne : p.take (pathRootLen p) ≠ [] := by
      intro h
      rw [h] at hlen
      exact hroot hlen.symm
    have hhidden : ¬ HiddenDrive p := fun h => hroot h.1
    rw [pathCat_eq p, joinBehind_eq hne]
    by_cases hbare : BareDevice p
    · have hdeviceHead : hasDevicePrefix (p.take (pathRootLen p)) = true := by
        have hwhole := hasDevicePrefix_of_four hbare.1
        rw [hbare.1]
        unfold hasDevicePrefix at hwhole ⊢
        split at hwhole
        · exact hwhole
        · exact absurd hwhole Bool.false_ne_true
      rw [hbare.2, List.flatMap_nil, List.append_nil]
      exact iff_of_false (pathCat_four (hlen.trans hbare.1) hdeviceHead) fun h => h.1 hbare
    · refine iff_of_true (pathCat_root hne hparts ?_) ⟨hbare, hhidden⟩
      rw [pathRootLen_append hroot, hlen]
      · cases hcases : pathParts p with
        | nil => exact .inl rfl
        | cons part rest =>
            obtain ⟨x, part, rfl⟩ := List.exists_cons_of_ne_nil
              (hparts part (hcases ▸ List.mem_cons_self)).1
            exact .inr ⟨x, _, rfl⟩
      · intro hbehind
        by_contra hle
        refine hbehind ?_
        have hdrop : p.drop (pathRootLen p) = [] := List.drop_eq_nil_of_le (not_lt.mp hle)
        have hnil : pathParts p = [] := by
          rw [pathParts, hdrop]
          rfl
        rw [hnil]
        rfl
      · intro hnil hfour
        refine hbare ⟨hfour, ?_⟩
        cases hcases : pathParts p with
        | nil => rfl
        | cons part rest =>
            rw [hcases] at hnil
            cases hnil

end Baulk
