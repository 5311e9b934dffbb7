import Baulk.Path.Windows

/-!
# Where an archive is extracted to

`FileDestination` takes the extension off the name of an archive.  For a path whose last
component has a character other than a dot the destination lies beside the archive, except
where the component is nothing but an extension: a destination without a name is empty if
the path has no directory, and lies inside the archive's path if separators follow.
-/

namespace Baulk.Archive

/-! ## The functions -/

def isDotOrSeparator (ch : WChar) : Bool :=
  isPathSeparator ch || ch == 0x2E

/-- The loop of `PathStripExtension` that shortens `p`, whose last index is `i`. -/
def removeTrailing : Nat → WString → WString
  | 0, p => p
  | i + 1, p =>
      if (p[i + 1]?.map isDotOrSeparator).getD false then removeTrailing i p.dropLast else p

def extensions : List WString :=
  [wide ".tar.gz", wide ".tar.bz2", wide ".tar.xz", wide ".tar.zst", wide ".tar.zstd",
    wide ".tar.br", wide ".tar.lz4"]

def findLastOf (set : WString) : WString → Option Nat
  | [] => none
  | c :: p =>
      match findLastOf set p with
      | some pos => some (pos + 1)
      | none => if set.contains c then some 0 else none

/-- The end of `PathStripExtension`. -/
def cutExtension (p : WString) : WString :=
  match extensions.find? (endsWithIgnoreCase p) with
  | some e => p.take (p.length - e.length)
  | none =>
      match findLastOf (wide "\\/.") p with
      | some pos => if p[pos]? = some 0x2E then p.take pos else p
      | none => p

def pathStripExtension (p : WString) : WString :=
  if p = [] then wide "."
  else cutExtension (removeTrailing (p.length - 1) p)

def endsWithPathSeparator (p : WString) : Bool :=
  (p.getLast?.map isPathSeparator).getD false

def fileDestination (arfile : WString) : WString :=
  let d := pathStripExtension arfile
  if d.length ≠ arfile.length ∧ endsWithPathSeparator d = false then d
  else arfile ++ wide ".out"

/-! ## Paths and extensions -/

/-- The path of an archive: a directory with its separator, a name with a character other
than dots, and separators. -/
structure ArchivePath where
  dir : WString
  name : WString
  separators : WString
  dir_ends : dir ≠ [] → ∃ front c, dir = front ++ [c] ∧ isPathSeparator c = true
  name_plain : ∀ c ∈ name, isPathSeparator c = false
  separators_all : ∀ c ∈ separators, isPathSeparator c = true
  named : ∃ c ∈ name, c ≠ 0x2E

def ArchivePath.text (a : ArchivePath) : WString :=
  a.dir ++ a.name ++ a.separators

def CompoundExtension (ext : WString) : Prop :=
  ∃ e ∈ extensions, equalsIgnoreCase ext e = true

/-- A dot, and characters after it. -/
def SimpleExtension (ext : WString) : Prop :=
  ∃ letters, ext = 0x2E :: letters ∧ ∀ c ∈ letters, isDotOrSeparator c = false

/-- The last component of a path has no dot. -/
def NoExtension (p : WString) : Prop :=
  ∀ {front last}, p = front ++ last → (∀ c ∈ last, isPathSeparator c = false) →
    (0x2E : WChar) ∉ last

/-- No compound extension ends a path. -/
def NoCompound (p : WString) : Prop :=
  ∀ {front ext}, p = front ++ ext → ¬ CompoundExtension ext

/-- `ext` is the extension of a path: a compound one, else a simple one, else none. -/
def ExtensionOf (p ext : WString) : Prop :=
  CompoundExtension ext ∨ NoCompound p ∧ (SimpleExtension ext ∨ ext = [] ∧ NoExtension p)

/-- A path without an end of dots and separators. -/
def Trimmed (p : WString) : Prop :=
  ∀ {front c}, p = front ++ [c] → isDotOrSeparator c = false

/-- What is left of a path without trailing dots and separators and an extension.  The
separator of a path that has nothing else is left. -/
def Stripped (p out : WString) : Prop :=
  ∃ ext tail, p = out ++ ext ++ tail ∧
    (∀ c ∈ tail, isDotOrSeparator c = true) ∧ (∀ c ∈ ext, isPathSeparator c = false) ∧
      ExtensionOf (out ++ ext) ext ∧
      (Trimmed (out ++ ext) ∨ ∃ c, isPathSeparator c = true ∧ out ++ ext = [c])

/-- A path in the directory of the archive, other than the archive's own. -/
def Beside (a : ArchivePath) (destination : WString) : Prop :=
  destination ≠ a.text ∧ ∃ name, destination = a.dir ++ name ∧ name ≠ [] ∧
    ∀ c ∈ name, isPathSeparator c = false

/-- The path of a file in the directory: its name is neither `.` nor `..`. -/
def FileBeside (a : ArchivePath) (destination : WString) : Prop :=
  Beside a destination ∧ destination ≠ a.dir ++ wide "." ∧ destination ≠ a.dir ++ wide ".."

/-- A name is an extension behind `front`, before trailing dots. -/
def ExtensionAfter (front name : WString) : Prop :=
  ∃ ext dots, name = front ++ ext ++ dots ∧ (CompoundExtension ext ∨ SimpleExtension ext) ∧
    (∀ init, ext ≠ init ++ [0x2E]) ∧ ∀ c ∈ dots, c = 0x2E

/-! ## Extensions -/

theorem isDotOrSeparator_eq_false {c : WChar} :
    isDotOrSeparator c = false ↔ isPathSeparator c = false ∧ c ≠ 0x2E := by
  rw [isDotOrSeparator, Bool.or_eq_false_iff, beq_eq_false_iff_ne]

theorem isDotOrSeparator_eq_contains (c : WChar) :
    isDotOrSeparator c = (wide "\\/.").contains c := by
  change _ = (([0x5C, 0x2F, 0x2E] : WString).contains c)
  simp only [isDotOrSeparator, isPathSeparator, List.contains_cons, List.contains_nil,
    Bool.or_false, Bool.or_assoc]

theorem findLastOf_eq_none {set p : WString} (h : findLastOf set p = none) :
    ∀ c ∈ p, set.contains c = false := by
  induction p with
  | nil => simp
  | cons c p ih =>
      cases hlast : findLastOf set p with
      | some pos =>
          rw [findLastOf, hlast] at h
          cases h
      | none =>
          rw [findLastOf, hlast] at h
          intro x hx
          rcases List.mem_cons.mp hx with rfl | hx
          · by_contra hmem
            rw [Bool.not_eq_false] at hmem
            rw [if_pos hmem] at h
            cases h
          · exact ih hlast x hx

theorem findLastOf_eq_some {set p : WString} {pos : Nat} (h : findLastOf set p = some pos) :
    ∃ front c back, p = front ++ c :: back ∧ set.contains c = true ∧
      (∀ x ∈ back, set.contains x = false) ∧ pos = front.length := by
  induction p generalizing pos with
  | nil => cases h
  | cons c p ih =>
      cases hlast : findLastOf set p with
      | some last =>
          rw [findLastOf, hlast] at h
          cases h
          obtain ⟨front, x, back, rfl, hmem, hback, rfl⟩ := ih hlast
          exact ⟨c :: front, x, back, rfl, hmem, hback, rfl⟩
      | none =>
          rw [findLastOf, hlast] at h
          by_cases hmem : set.contains c = true
          · rw [if_pos hmem] at h
            cases h
            exact ⟨[], c, p, rfl, hmem, findLastOf_eq_none hlast, rfl⟩
          · rw [if_neg hmem] at h
            cases h

theorem asciiToLower_eq_iff {c x : WChar} (hupper : x.toNat < 0x41 ∨ 0x5A < x.toNat)
    (hlower : x.toNat < 0x61 ∨ 0x7A < x.toNat) : asciiToLower c = x ↔ c = x := by
  unfold asciiToLower
  split
  · rename_i hletter
    obtain ⟨hge, hle⟩ := hletter
    rw [UInt16.le_iff_toNat_le] at hge hle
    have hge' : 0x41 ≤ c.toNat := hge
    have hle' : c.toNat ≤ 0x5A := hle
    have hsum : (c + 0x20).toNat = c.toNat + 0x20 := by
      rw [UInt16.toNat_add]
      exact Nat.mod_eq_of_lt (by change c.toNat + 0x20 < 2 ^ 16; omega)
    rw [← UInt16.toNat_inj, ← UInt16.toNat_inj, hsum]
    omega
  · exact Iff.rfl

theorem asciiToLower_eq_dot {c : WChar} : asciiToLower c = 0x2E ↔ c = 0x2E :=
  asciiToLower_eq_iff (.inl (by decide)) (.inl (by decide))

theorem isPathSeparator_asciiToLower (c : WChar) :
    isPathSeparator (asciiToLower c) = isPathSeparator c := by
  rw [Bool.eq_iff_iff]
  simp only [isPathSeparator, Bool.or_eq_true, beq_iff_eq]
  rw [asciiToLower_eq_iff (.inr (by decide)) (.inl (by decide)),
    asciiToLower_eq_iff (.inl (by decide)) (.inl (by decide))]

theorem lower_of_mem_extensions {e : WString} (h : e ∈ extensions) :
    e.map asciiToLower = e ∧ e.take 2 = wide ".t" ∧ e.count 0x2E = 2 ∧
      e.getLast? ≠ some 0x2E ∧ e.all (fun c => !isPathSeparator c) = true := by
  have hall : extensions.all (fun e => decide (e.map asciiToLower = e ∧
      e.take 2 = wide ".t" ∧ e.count 0x2E = 2 ∧ e.getLast? ≠ some 0x2E ∧
      e.all (fun c => !isPathSeparator c) = true)) = true := by
    decide
  exact of_decide_eq_true (List.all_eq_true.mp hall e h)

/-- A compound extension begins with a dot and a letter, has one more dot before its last
character, and no separator. -/
theorem CompoundExtension.shape {ext : WString} (h : CompoundExtension ext) :
    (∃ t rest, ext = 0x2E :: t :: rest ∧ t ≠ 0x2E) ∧ ext.count 0x2E = 2 ∧
      (∀ init, ext ≠ init ++ [0x2E]) ∧ ∀ c ∈ ext, isPathSeparator c = false := by
  obtain ⟨e, he, hequal⟩ := h
  obtain ⟨hlower, hbegin, hcount, hlast, hplain⟩ := lower_of_mem_extensions he
  rw [equalsIgnoreCase_iff, hlower] at hequal
  subst hequal
  refine ⟨?_, ?_, ?_, ?_⟩
  · rcases ext with _ | ⟨d, _ | ⟨t, rest⟩⟩
    · cases hbegin
    · change [asciiToLower d] = [0x2E, 0x74] at hbegin
      cases List.tail_eq_of_cons_eq hbegin
    · change [asciiToLower d, asciiToLower t] = [0x2E, 0x74] at hbegin
      obtain ⟨hd, ht⟩ := List.cons.inj hbegin
      rw [asciiToLower_eq_dot.mp hd]
      refine ⟨t, rest, rfl, ?_⟩
      rintro rfl
      exact absurd ht (by decide)
  · rw [← hcount]
    unfold List.count
    rw [List.countP_map]
    refine List.countP_congr fun c _ => ?_
    rw [Function.comp_apply, beq_iff_eq, beq_iff_eq, asciiToLower_eq_dot]
  · rintro init rfl
    rw [List.map_append, List.map_singleton, List.getLast?_concat] at hlast
    exact hlast rfl
  · intro c hc
    have hmem := List.all_eq_true.mp hplain _ (List.mem_map_of_mem hc)
    rwa [Bool.not_eq_true', isPathSeparator_asciiToLower] at hmem

theorem SimpleExtension.plain {ext : WString} (h : SimpleExtension ext) :
    ∀ c ∈ ext, isPathSeparator c = false := by
  obtain ⟨letters, rfl, hletters⟩ := h
  intro c hc
  rcases List.mem_cons.mp hc with rfl | hc
  · decide
  · exact (isDotOrSeparator_eq_false.mp (hletters c hc)).1

/-! ## Trailing dots and separators -/

theorem trimmed_concat {front : WString} {c : WChar} :
    Trimmed (front ++ [c]) ↔ isDotOrSeparator c = false := by
  constructor
  · intro h
    exact h rfl
  · intro h front' c' heq
    obtain ⟨-, hc⟩ := List.append_inj' heq rfl
    exact List.singleton_inj.mp hc ▸ h

theorem removeTrailing_concat {i : Nat} {front : WString} {c : WChar}
    (h : front.length = i + 1) :
    removeTrailing (i + 1) (front ++ [c]) =
      if isDotOrSeparator c then removeTrailing i front else front ++ [c] := by
  rw [removeTrailing, ← h, List.getElem?_concat_length, List.dropLast_concat]
  rfl

/-- Dots and separators at the end are removed, except for the first character. -/
theorem removeTrailing_spec {i : Nat} {p : WString} (h : p.length = i + 1) :
    removeTrailing i p ≠ [] ∧
      ∃ tail, p = removeTrailing i p ++ tail ∧ (∀ c ∈ tail, isDotOrSeparator c = true) ∧
        (Trimmed (removeTrailing i p) ∨
          ∃ c, isDotOrSeparator c = true ∧ removeTrailing i p = [c]) := by
  induction i generalizing p with
  | zero =>
      obtain ⟨c, rfl⟩ := List.length_eq_one_iff.mp h
      refine ⟨List.cons_ne_nil _ _, [], rfl, nofun, ?_⟩
      cases hc : isDotOrSeparator c with
      | true => exact .inr ⟨c, hc, rfl⟩
      | false => exact .inl (@trimmed_concat [] c |>.mpr hc)
  | succ i ih =>
      obtain ⟨front, c, rfl⟩ := (List.eq_nil_or_concat' p).resolve_left (by
        rintro rfl
        cases h)
      rw [List.length_append, List.length_singleton, Nat.succ_inj] at h
      rw [removeTrailing_concat h]
      by_cases hc : isDotOrSeparator c = true
      · rw [if_pos hc]
        obtain ⟨hne, tail, heq, htail, hend⟩ := ih h
        refine ⟨hne, tail ++ [c], ?_, ?_, hend⟩
        · rw [← List.append_assoc, ← heq]
        · intro x hx
          rcases List.mem_append.mp hx with hx | hx
          · exact htail x hx
          · rwa [List.mem_singleton.mp hx]
      · rw [if_neg hc]
        refine ⟨by simp, [], by rw [List.append_nil], nofun, .inl ?_⟩
        rwa [trimmed_concat, ← Bool.not_eq_true]

/-- There is one way to take dots and separators off the end. -/
theorem trimmed_unique {q q' tail tail' : WString} (heq : q ++ tail = q' ++ tail')
    (htail : ∀ c ∈ tail, isDotOrSeparator c = true)
    (htail' : ∀ c ∈ tail', isDotOrSeparator c = true)
    (hq : q ≠ [] ∧ (Trimmed q ∨ ∃ c, q = [c])) (hq' : q' ≠ [] ∧ Trimmed q') : q = q' := by
  rcases List.append_eq_append_iff.mp heq with ⟨y, rfl, rfl⟩ | ⟨y, rfl, rfl⟩
  · rcases List.eq_nil_or_concat' y with rfl | ⟨front, c, rfl⟩
    · rw [List.append_nil]
    · have hkept : isDotOrSeparator c = false := hq'.2 (List.append_assoc _ _ _).symm
      have hremoved := htail c (by simp)
      rw [hkept] at hremoved
      cases hremoved
  · rcases List.eq_nil_or_concat' y with rfl | ⟨front, c, rfl⟩
    · rw [List.append_nil]
    · have hremoved := htail' c (by simp)
      rcases hq.2 with htrimmed | ⟨x, hx⟩
      · have hkept : isDotOrSeparator c = false := htrimmed (List.append_assoc _ _ _).symm
        rw [hkept] at hremoved
        cases hremoved
      · have hcount := congrArg List.length hx
        have hpositive := List.length_pos_of_ne_nil hq'.1
        simp only [List.length_append, List.length_singleton] at hcount
        omega

/-! ## Cutting the extension off -/

theorem cutExtension_spec (p : WString) :
    ∃ ext, p = cutExtension p ++ ext ∧ ExtensionOf p ext := by
  unfold cutExtension
  cases hcompound : extensions.find? (endsWithIgnoreCase p) with
  | some e =>
      obtain ⟨front, ext, rfl, hequal⟩ :=
        endsWithIgnoreCase_iff.mp (List.find?_some hcompound)
      have hlength := congrArg List.length (equalsIgnoreCase_iff.mp hequal)
      rw [List.length_map, List.length_map] at hlength
      refine ⟨ext, ?_, .inl ⟨e, List.mem_of_find?_eq_some hcompound, hequal⟩⟩
      dsimp only
      rw [← hlength, List.length_append, Nat.add_sub_cancel, List.take_left]
  | none =>
      have hno : NoCompound p := by
        rintro front ext rfl ⟨e, he, hequal⟩
        exact List.find?_eq_none.mp hcompound e he
          (endsWithIgnoreCase_iff.mpr ⟨front, ext, rfl, hequal⟩)
      dsimp only
      cases hlast : findLastOf (wide "\\/.") p with
      | none =>
          refine ⟨[], (List.append_nil p).symm, .inr ⟨hno, .inr ⟨rfl, ?_⟩⟩⟩
          rintro front last rfl - hdot
          have hnone := findLastOf_eq_none hlast _ (List.mem_append_right front hdot)
          cases hnone
      | some pos =>
          obtain ⟨front, c, back, rfl, hc, hback, rfl⟩ := findLastOf_eq_some hlast
          have hchar : (front ++ c :: back)[front.length]? = some c := by
            rw [List.getElem?_append_right le_rfl, Nat.sub_self]
            rfl
          simp only [← isDotOrSeparator_eq_contains] at hc hback
          dsimp only
          rw [hchar]
          by_cases hdot : c = 0x2E
          · rw [if_pos (congrArg some hdot), List.take_left]
            exact ⟨c :: back, rfl, .inr ⟨hno, .inl ⟨back, by rw [hdot], hback⟩⟩⟩
          · rw [if_neg fun heq => hdot (Option.some_inj.mp heq)]
            refine ⟨[], (List.append_nil _).symm, .inr ⟨hno, .inr ⟨rfl, ?_⟩⟩⟩
            -- The character is a separator, so the last component lies behind it.
            intro front' last heq hplain hmem
            have hsep : isPathSeparator c = true := by
              by_contra hno
              rw [Bool.not_eq_true] at hno
              rw [isDotOrSeparator_eq_false.mpr ⟨hno, hdot⟩] at hc
              cases hc
            have hnot : c ∉ last := by
              intro hlast
              rw [hplain c hlast] at hsep
              cases hsep
            have hback' : (0x2E : WChar) ∉ back := by
              intro hback'
              cases hback _ hback'
            rcases List.append_eq_append_iff.mp heq with ⟨y, -, hy⟩ | ⟨y, -, rfl⟩
            · rcases y with _ | ⟨x, y⟩
              · rw [List.nil_append] at hy
                exact hnot (hy ▸ List.mem_cons_self)
              · obtain ⟨-, rfl⟩ := List.cons.inj hy
                exact hback' (List.mem_append_right y hmem)
            · exact hnot (List.mem_append_right y List.mem_cons_self)

theorem ExtensionOf.plain {p ext : WString} (h : ExtensionOf p ext) :
    ∀ c ∈ ext, isPathSeparator c = false := by
  rcases h with hcompound | ⟨-, hsimple | ⟨rfl, -⟩⟩
  · exact hcompound.shape.2.2.2
  · exact hsimple.plain
  · nofun

theorem noExtension_of_not_mem {p : WString} (h : (0x2E : WChar) ∉ p) : NoExtension p := by
  rintro front last rfl - hdot
  exact h (List.mem_append_right front hdot)

theorem noCompound_of_short {p : WString} (h : p.length < 2) : NoCompound p := by
  rintro front ext rfl hcompound
  obtain ⟨⟨t, rest, rfl, -⟩, -⟩ := hcompound.shape
  simp only [List.length_append, List.length_cons] at h
  omega

theorem cutExtension_singleton {c : WChar} (h : isDotOrSeparator c = true) :
    c = 0x2E ∧ cutExtension [c] = [] ∨ isPathSeparator c = true ∧ cutExtension [c] = [c] := by
  rw [isDotOrSeparator, Bool.or_eq_true, isPathSeparator, Bool.or_eq_true, beq_iff_eq,
    beq_iff_eq, beq_iff_eq] at h
  rcases h with (rfl | rfl) | rfl
  · exact .inr (by decide)
  · exact .inr (by decide)
  · exact .inl (by decide)

theorem pathStripExtension_stripped {p : WString} (hp : p ≠ []) :
    Stripped p (pathStripExtension p) := by
  have hlength : p.length = p.length - 1 + 1 :=
    (Nat.sub_add_cancel (List.length_pos_of_ne_nil hp)).symm
  obtain ⟨-, tail, heq, htail, hend⟩ := removeTrailing_spec hlength
  obtain ⟨ext, hcut, hext⟩ := cutExtension_spec (removeTrailing (p.length - 1) p)
  rw [pathStripExtension, if_neg hp]
  rcases hend with htrimmed | ⟨c, hc, hsingle⟩
  · refine ⟨ext, tail, ?_, htail, hext.plain, ?_, .inl ?_⟩
    · rw [← hcut, ← heq]
    · rwa [← hcut]
    · rwa [← hcut]
  -- Only the first character is left: a dot goes with the others, a separator stays.
  rw [hsingle] at heq ⊢
  rcases cutExtension_singleton hc with ⟨rfl, hempty⟩ | ⟨hsep, hsame⟩
  · rw [hempty]
    refine ⟨[], p, rfl, ?_, nofun,
      .inr ⟨noCompound_of_short (by decide), .inr ⟨rfl, noExtension_of_not_mem (by simp)⟩⟩,
      .inl fun {front c} hnil => ?_⟩
    · intro x hx
      rw [heq] at hx
      rcases List.mem_append.mp hx with hx | hx
      · rwa [List.mem_singleton.mp hx]
      · exact htail x hx
    · exact absurd hnil.symm (by simp)
  · rw [hsame]
    have hdot : (0x2E : WChar) ∉ [c] := by
      intro hmem
      rw [← List.mem_singleton.mp hmem] at hsep
      cases hsep
    exact ⟨[], tail, heq, htail, nofun,
      .inr ⟨noCompound_of_short (by simp), .inr ⟨rfl, noExtension_of_not_mem hdot⟩⟩,
      .inr ⟨c, hsep, rfl⟩⟩

/-! ## Names -/

theorem exists_core {name : WString} (h : ∃ c ∈ name, c ≠ 0x2E) :
    ∃ front c dots, name = front ++ [c] ++ dots ∧ c ≠ 0x2E ∧ ∀ x ∈ dots, x = 0x2E := by
  induction name using List.reverseRecOn with
  | nil =>
      obtain ⟨c, hc, -⟩ := h
      cases hc
  | append_singleton name x ih =>
      by_cases hx : x = 0x2E
      · obtain ⟨c, hc, hne⟩ := h
        have hmem : c ∈ name := by
          rcases List.mem_append.mp hc with hc | hc
          · exact hc
          · exact absurd ((List.mem_singleton.mp hc).trans hx) hne
        obtain ⟨front, last, dots, rfl, hlast, hdots⟩ := ih ⟨c, hmem, hne⟩
        refine ⟨front, last, dots ++ [x], by simp, hlast, ?_⟩
        intro y hy
        rcases List.mem_append.mp hy with hy | hy
        · exact hdots y hy
        · exact (List.mem_singleton.mp hy).trans hx
      · exact ⟨name, x, [], by simp, hx, nofun⟩

/-- How a name is taken apart: what stays, its extension, and trailing dots. -/
structure NameParts (a : ArchivePath) where
  stem : WString
  ext : WString
  dots : WString
  name_eq : a.name = stem ++ ext ++ dots
  dots_all : ∀ c ∈ dots, c = 0x2E
  trimmed : ∃ front c, stem ++ ext = front ++ [c] ∧ c ≠ 0x2E
  extension : ExtensionOf (a.dir ++ (stem ++ ext)) ext
  strip_eq : pathStripExtension a.text = a.dir ++ stem

theorem exists_nameParts (a : ArchivePath) : Nonempty (NameParts a) := by
  obtain ⟨front, last, dots, hname, hlast, hdots⟩ := exists_core a.named
  have hplain : isPathSeparator last = false := a.name_plain last (by simp [hname])
  have htext : a.text = (a.dir ++ (front ++ [last])) ++ (dots ++ a.separators) := by
    rw [ArchivePath.text, hname]
    simp only [List.append_assoc]
  have hne : a.text ≠ [] := by
    rw [htext]
    simp
  have hlength : a.text.length = a.text.length - 1 + 1 :=
    (Nat.sub_add_cancel (List.length_pos_of_ne_nil hne)).symm
  obtain ⟨hne', tail, heq, htail, hend⟩ := removeTrailing_spec hlength
  have hend' : ∀ c ∈ dots ++ a.separators, isDotOrSeparator c = true := by
    intro c hc
    rcases List.mem_append.mp hc with hc | hc
    · rw [hdots c hc]
      decide
    · rw [isDotOrSeparator, a.separators_all c hc, Bool.true_or]
  have hcore : Trimmed (a.dir ++ (front ++ [last])) := by
    rw [← List.append_assoc, trimmed_concat, isDotOrSeparator_eq_false]
    exact ⟨hplain, hlast⟩
  have hq : removeTrailing (a.text.length - 1) a.text = a.dir ++ (front ++ [last]) := by
    refine trimmed_unique (heq.symm.trans htext) htail hend' ⟨hne', ?_⟩ ⟨by simp, hcore⟩
    rcases hend with htrimmed | ⟨c, -, hc⟩
    · exact .inl htrimmed
    · exact .inr ⟨c, hc⟩
  obtain ⟨ext, hcut, hext⟩ := cutExtension_spec (a.dir ++ (front ++ [last]))
  have hstrip : pathStripExtension a.text = cutExtension (a.dir ++ (front ++ [last])) := by
    rw [pathStripExtension, if_neg hne, hq]
  -- The extension has no separator, so it lies behind the directory.
  obtain ⟨stem, hstem, hcoreEq⟩ : ∃ stem,
      cutExtension (a.dir ++ (front ++ [last])) = a.dir ++ stem ∧
        front ++ [last] = stem ++ ext := by
    rcases List.append_eq_append_iff.mp hcut with ⟨y, hy, hcoreEq⟩ | ⟨y, hy, rfl⟩
    · exact ⟨y, hy, hcoreEq⟩
    · by_cases hnil : y = []
      · subst hnil
        rw [List.append_nil] at hy
        exact ⟨[], hy.symm.trans (List.append_nil _).symm, rfl⟩
      · obtain ⟨init, c, hdir, hsep⟩ := a.dir_ends (by
          rw [hy]
          simp [hnil])
        obtain ⟨yfront, d, rfl⟩ := (List.eq_nil_or_concat' y).resolve_left hnil
        rw [hdir, ← List.append_assoc] at hy
        obtain ⟨-, hcd⟩ := List.append_inj' hy rfl
        have hno := hext.plain d (by simp)
        rw [← List.singleton_inj.mp hcd, hsep] at hno
        cases hno
  refine ⟨⟨stem, ext, dots, ?_, hdots, ⟨front, last, hcoreEq.symm, hlast⟩, ?_, ?_⟩⟩
  · rw [hname, hcoreEq]
  · rwa [← hcoreEq]
  · rw [hstrip, hstem]

theorem SimpleExtension.count_dot {ext : WString} (h : SimpleExtension ext) :
    ext.count 0x2E = 1 := by
  obtain ⟨letters, rfl, hletters⟩ := h
  have hnone : (0x2E : WChar) ∉ letters := by
    intro hmem
    cases hletters _ hmem
  rw [List.count_cons_self, List.count_eq_zero.mpr hnone]

theorem eq_nil_of_count_dot {dots : WString} (hdots : ∀ c ∈ dots, c = 0x2E)
    (h : dots.count 0x2E = 0) : dots = [] := by
  refine List.eq_nil_iff_forall_not_mem.mpr fun c hc => ?_
  rw [List.count_eq_zero] at h
  exact h (hdots c hc ▸ hc)

/-- Behind dots there is one way to find the extension of a name. -/
theorem stem_unique {dir stem ext front e : WString} (heq : stem ++ ext = front ++ e)
    (hplain : ∀ c ∈ stem ++ ext, isPathSeparator c = false)
    (hfront : ∀ c ∈ front, c = 0x2E) (hext : ExtensionOf (dir ++ (stem ++ ext)) ext)
    (he : CompoundExtension e ∨ SimpleExtension e) : stem = front := by
  have hbegin : ∃ rest, e = 0x2E :: rest := by
    rcases he with hcompound | ⟨letters, rfl, -⟩
    · obtain ⟨⟨t, rest, rfl, -⟩, -⟩ := hcompound.shape
      exact ⟨_, rfl⟩
    · exact ⟨_, rfl⟩
  have hdot : (0x2E : WChar) ∈ stem ++ ext := by
    obtain ⟨rest, rfl⟩ := hbegin
    rw [heq]
    simp
  rcases List.append_eq_append_iff.mp heq with ⟨y, rfl, rfl⟩ | ⟨y, rfl, rfl⟩
  · -- The extension that is found is `y` and `e`, where `y` are dots.
    have hy : ∀ c ∈ y, c = 0x2E := fun c hc => hfront c (List.mem_append_right _ hc)
    have hnil : y = [] := by
      rcases hext with hcompound | ⟨-, hsimple | ⟨hempty, -⟩⟩
      · obtain ⟨⟨t, rest, hshape, ht⟩, hcount, -⟩ := hcompound.shape
        rcases y with _ | ⟨x, y⟩
        · rfl
        · rw [List.cons_append] at hshape
          obtain ⟨rfl, hrest⟩ := List.cons.inj hshape
          exfalso
          rcases y with _ | ⟨x', y⟩
          · obtain ⟨rest', rfl⟩ := hbegin
            exact ht (List.cons.inj hrest).1.symm
          · exact ht ((List.cons.inj hrest).1.symm.trans (hy x' (by simp)))
      · refine eq_nil_of_count_dot hy ?_
        have hcount := hsimple.count_dot
        obtain ⟨rest, rfl⟩ := hbegin
        rw [List.count_append, List.count_cons_self] at hcount
        omega
      · exact (List.append_eq_nil_iff.mp hempty).1
    rw [hnil, List.append_nil]
  · -- The extension `e` is `y` and the one that is found.
    rcases y with _ | ⟨x, y⟩
    · rw [List.append_nil]
    · exfalso
      obtain ⟨rest, hrest⟩ := hbegin
      obtain ⟨rfl, -⟩ := List.cons.inj hrest
      have hsplit : dir ++ (front ++ 0x2E :: y ++ ext) = (dir ++ front) ++ (0x2E :: y ++ ext) := by
        simp only [List.append_assoc]
      have hcount : (0x2E :: y ++ ext).count 0x2E = y.count 0x2E + 1 + ext.count 0x2E := by
        rw [List.count_append, List.count_cons_self]
      rcases he with hcompound | hsimple
      · rcases hext with hcompound' | ⟨hno, -⟩
        · have h2 := hcompound.shape.2.1
          have h2' := hcompound'.shape.2.1
          omega
        · exact hno hsplit hcompound
      · have h1 := hsimple.count_dot
        rcases hext with hcompound' | ⟨-, hsimple' | ⟨-, hnone⟩⟩
        · have h2' := hcompound'.shape.2.1
          omega
        · have h1' := hsimple'.count_dot
          omega
        · exact hnone rfl hplain hdot

namespace NameParts

variable {a : ArchivePath} (n : NameParts a)

theorem mem_name {c : WChar} (h : c ∈ n.stem ++ n.ext) : c ∈ a.name := by
  rw [n.name_eq]
  exact List.mem_append_left _ h

theorem core_trimmed : Trimmed (n.stem ++ n.ext) := by
  obtain ⟨front, c, heq, hc⟩ := n.trimmed
  have hplain := a.name_plain c (n.mem_name (by simp [heq]))
  rw [heq, trimmed_concat, isDotOrSeparator_eq_false]
  exact ⟨hplain, hc⟩

/-- Only dots stay of a name that is an extension behind them. -/
theorem stem_eq_iff {front : WString} (hfront : ∀ c ∈ front, c = 0x2E) :
    n.stem = front ↔ ExtensionAfter front a.name := by
  obtain ⟨init, c, hcore, hc⟩ := n.trimmed
  have hdots : ∀ {dots : WString}, (∀ x ∈ dots, x = 0x2E) →
      ∀ x ∈ dots, isDotOrSeparator x = true := by
    intro dots hdots x hx
    rw [hdots x hx]
    decide
  constructor
  · intro hstem
    refine ⟨n.ext, n.dots, hstem ▸ n.name_eq, ?_, ?_, n.dots_all⟩
    · rcases n.extension with hcompound | ⟨-, hsimple | ⟨hnil, -⟩⟩
      · exact .inl hcompound
      · exact .inr hsimple
      · rw [hnil, List.append_nil, hstem] at hcore
        exact absurd (hfront c (by simp [hcore])) hc
    · rintro init' hext
      rw [hext, ← List.append_assoc] at hcore
      obtain ⟨-, hlast⟩ := List.append_inj' hcore rfl
      exact hc (List.singleton_inj.mp hlast).symm
  · rintro ⟨e, dots, hname, he, hlast, hall⟩
    have hne : e ≠ [] := by
      rintro rfl
      rcases he with hcompound | ⟨letters, hcons, -⟩
      · obtain ⟨⟨t, rest, hcons, -⟩, -⟩ := hcompound.shape
        cases hcons
      · cases hcons
    obtain ⟨einit, d, rfl⟩ := (List.eq_nil_or_concat' e).resolve_left hne
    have hplain : isPathSeparator d = false := a.name_plain d (by simp [hname])
    have htrimmed : Trimmed (front ++ (einit ++ [d])) := by
      rw [← List.append_assoc, trimmed_concat, isDotOrSeparator_eq_false]
      exact ⟨hplain, fun hd => hlast einit (by rw [hd])⟩
    have heq : n.stem ++ n.ext = front ++ (einit ++ [d]) :=
      trimmed_unique (n.name_eq.symm.trans hname) (hdots n.dots_all) (hdots hall)
        ⟨by simp [hcore], .inl n.core_trimmed⟩ ⟨by simp, htrimmed⟩
    exact stem_unique heq (fun x hx => a.name_plain x (n.mem_name hx)) hfront n.extension he

theorem stem_plain : ∀ c ∈ n.stem, isPathSeparator c = false :=
  fun c hc => a.name_plain c (n.mem_name (List.mem_append_left _ hc))

theorem text_eq : a.text = a.dir ++ n.stem ++ (n.ext ++ n.dots ++ a.separators) := by
  rw [ArchivePath.text, n.name_eq]
  simp only [List.append_assoc]

theorem endsWithPathSeparator_strip :
    endsWithPathSeparator (a.dir ++ n.stem) = false ↔ n.stem ≠ [] ∨ a.dir = [] := by
  rcases List.eq_nil_or_concat' n.stem with hnil | ⟨front, c, hstem⟩
  · rw [hnil, List.append_nil]
    by_cases hdir : a.dir = []
    · rw [hdir]
      exact iff_of_true rfl (.inr rfl)
    · obtain ⟨init, c, heq, hsep⟩ := a.dir_ends hdir
      refine iff_of_false ?_ (by simp [hdir])
      rw [endsWithPathSeparator, heq, List.getLast?_concat, Option.map_some, hsep]
      exact Bool.noConfusion
  · have hplain := n.stem_plain c (by simp [hstem])
    refine iff_of_true ?_ (.inl (by simp [hstem]))
    rw [endsWithPathSeparator, hstem, ← List.append_assoc, List.getLast?_concat, Option.map_some,
      hplain]
    rfl

/-- The destination is what is left of the path; if nothing was taken off, or no name is
left in a directory, it is the path with an ending. -/
theorem fileDestination_cases :
    fileDestination a.text = a.dir ++ n.stem ∧ a.dir ++ n.stem ≠ a.text ∧
        (n.stem ≠ [] ∨ a.dir = []) ∨
      fileDestination a.text = a.text ++ wide ".out" ∧
        (a.text = a.dir ++ n.stem ∧ n.stem ≠ [] ∨ n.stem = [] ∧ a.dir ≠ []) := by
  have hlength : (a.dir ++ n.stem).length ≠ a.text.length ↔ a.dir ++ n.stem ≠ a.text := by
    refine not_congr ⟨?_, congrArg List.length⟩
    intro hsame
    rw [n.text_eq] at hsame ⊢
    rw [@List.length_append _ (_ ++ _), Nat.left_eq_add] at hsame
    rw [List.eq_nil_of_length_eq_zero hsame, List.append_nil]
  unfold fileDestination
  simp only [n.strip_eq, hlength, n.endsWithPathSeparator_strip]
  by_cases hname : n.stem ≠ [] ∨ a.dir = []
  · by_cases hsame : a.dir ++ n.stem = a.text
    · rw [if_neg fun h => h.1 hsame]
      refine .inr ⟨rfl, .inl ⟨hsame.symm, ?_⟩⟩
      intro hnil
      obtain ⟨front, c, hcore, -⟩ := n.trimmed
      rw [n.text_eq, List.self_eq_append_right] at hsame
      simp only [List.append_eq_nil_iff] at hsame
      rw [hnil, hsame.1.1] at hcore
      simp at hcore
    · rw [if_pos ⟨hsame, hname⟩]
      exact .inl ⟨rfl, hsame, hname⟩
  · rw [if_neg fun h => hname h.2]
    rw [not_or, Decidable.not_not] at hname
    exact .inr ⟨rfl, .inr hname⟩

end NameParts

/-! ## Destinations -/

theorem dot_all : ∀ c ∈ wide ".", c = (0x2E : WChar) := by
  have hall : (wide ".").all (· == 0x2E) = true := by decide
  intro c hc
  exact eq_of_beq (List.all_eq_true.mp hall c hc)

theorem dotdot_all : ∀ c ∈ wide "..", c = (0x2E : WChar) := by
  have hall : (wide "..").all (· == 0x2E) = true := by decide
  intro c hc
  exact eq_of_beq (List.all_eq_true.mp hall c hc)

theorem plain_of_all {name : WString} (h : name.all (fun c => !isPathSeparator c) = true) :
    ∀ c ∈ name, isPathSeparator c = false := by
  intro c hc
  exact (Bool.not_eq_true' _).mp (List.all_eq_true.mp h c hc)

/-- A name in the directory with an ending is not the archive's. -/
theorem beside_append_out (a : ArchivePath) (h : a.separators = []) :
    FileBeside a (a.text ++ wide ".out") := by
  have htext : a.text ++ wide ".out" = a.dir ++ (a.name ++ wide ".out") := by
    rw [ArchivePath.text, h, List.append_nil, List.append_assoc]
  have hlong : ∀ {name : WString}, name.length < 4 →
      a.text ++ wide ".out" ≠ a.dir ++ name := by
    intro name hname heq
    rw [htext, List.append_cancel_left_eq] at heq
    rw [← heq, List.length_append] at hname
    have hout : (wide ".out").length = 4 := by decide
    omega
  refine ⟨⟨?_, a.name ++ wide ".out", htext, ?_, ?_⟩, hlong (by decide), hlong (by decide)⟩
  · intro heq
    have hout : wide ".out" = [] := List.append_right_eq_self.mp heq
    exact absurd hout (by decide)
  · intro hnil
    exact absurd (List.append_eq_nil_iff.mp hnil).2 (by decide)
  · intro c hc
    rcases List.mem_append.mp hc with hc | hc
    · exact a.name_plain c hc
    · exact plain_of_all (by decide) c hc

/-- With separators behind the name the ending is another component. -/
theorem not_beside_append_out (a : ArchivePath) (h : a.separators ≠ []) :
    ¬ Beside a (a.text ++ wide ".out") := by
  rintro ⟨-, name, heq, -, hplain⟩
  rw [ArchivePath.text, List.append_assoc, List.append_assoc,
    List.append_cancel_left_eq] at heq
  obtain ⟨c, hc⟩ := List.exists_mem_of_ne_nil _ h
  have hsep := a.separators_all c hc
  rw [hplain c (by rw [← heq]; simp [hc])] at hsep
  cases hsep

theorem beside_iff (a : ArchivePath) :
    Beside a (fileDestination a.text) ↔
      ¬ ExtensionAfter [] a.name ∨ a.dir ≠ [] ∧ a.separators = [] := by
  obtain ⟨n⟩ := exists_nameParts a
  rw [← n.stem_eq_iff (List.forall_mem_nil _)]
  rcases n.fileDestination_cases with ⟨hdest, hne, hname⟩ | ⟨hdest, hname⟩
  · rw [hdest]
    by_cases hstem : n.stem = []
    · refine iff_of_false ?_ (by simp [hstem, hname.resolve_left (not_not.mpr hstem)])
      rintro ⟨-, name, heq, hnonempty, -⟩
      rw [List.append_cancel_left_eq] at heq
      exact hnonempty (heq.symm.trans hstem)
    · exact iff_of_true ⟨hne, n.stem, rfl, hstem, n.stem_plain⟩ (.inl hstem)
  · rw [hdest]
    by_cases hsep : a.separators = []
    · refine iff_of_true (beside_append_out a hsep).1 ?_
      rcases hname with ⟨-, hstem⟩ | ⟨-, hdir⟩
      · exact .inl hstem
      · exact .inr ⟨hdir, hsep⟩
    · refine iff_of_false (not_beside_append_out a hsep) ?_
      rcases hname with ⟨htext, -⟩ | ⟨hstem, -⟩
      · rw [n.text_eq, List.append_right_eq_self] at htext
        exact absurd (List.append_eq_nil_iff.mp htext).2 hsep
      · simp [hstem, hsep]

theorem fileBeside_iff (a : ArchivePath) :
    FileBeside a (fileDestination a.text) ↔
      (¬ ExtensionAfter [] a.name ∨ a.dir ≠ [] ∧ a.separators = []) ∧
        ¬ ExtensionAfter (wide ".") a.name ∧ ¬ ExtensionAfter (wide "..") a.name := by
  rw [← beside_iff]
  obtain ⟨n⟩ := exists_nameParts a
  rw [← n.stem_eq_iff dot_all, ← n.stem_eq_iff dotdot_all]
  rw [FileBeside]
  refine and_congr_right fun hbeside => ?_
  rcases n.fileDestination_cases with ⟨hdest, -⟩ | ⟨hdest, hname⟩
  · rw [hdest, ne_eq, ne_eq, List.append_cancel_left_eq, List.append_cancel_left_eq]
  · have hsep : a.separators = [] := by
      by_contra hsep
      rw [hdest] at hbeside
      exact not_beside_append_out a hsep hbeside
    rw [hdest]
    refine iff_of_true (beside_append_out a hsep).2 ?_
    rcases hname with ⟨htext, -⟩ | ⟨hstem, -⟩
    · -- Nothing was taken off, and the name has a character other than dots.
      have hwhole : n.stem = a.name := by
        rw [ArchivePath.text, hsep, List.append_nil, List.append_cancel_left_eq] at htext
        exact htext.symm
      obtain ⟨c, hc, hdot⟩ := a.named
      rw [← hwhole] at hc
      exact ⟨fun heq => hdot (dot_all c (heq ▸ hc)), fun heq => hdot (dotdot_all c (heq ▸ hc))⟩
    · rw [hstem]
      exact ⟨by decide, by decide⟩

/-- What is stripped is the end of dots and separators and one extension of the last
component.  The destination lies beside the archive unless its name is an extension
without a directory or with separators behind it; it is a file there unless what stays of
the name is `.` or `..`. -/
theorem fileDestination_iff (a : ArchivePath) :
    (∀ {p : WString}, p ≠ [] → Stripped p (pathStripExtension p)) ∧
      (Beside a (fileDestination a.text) ↔
        ¬ ExtensionAfter [] a.name ∨ a.dir ≠ [] ∧ a.separators = []) ∧
      (FileBeside a (fileDestination a.text) ↔
        (¬ ExtensionAfter [] a.name ∨ a.dir ≠ [] ∧ a.separators = []) ∧
          ¬ ExtensionAfter (wide ".") a.name ∧ ¬ ExtensionAfter (wide "..") a.name) :=
  ⟨pathStripExtension_stripped, beside_iff a, fileBeside_iff a⟩

/-- An archive named `.zip` in the working directory. -/
def bareZip : ArchivePath where
  dir := []
  name := wide ".zip"
  separators := []
  dir_ends h := absurd rfl h
  name_plain := plain_of_all (by decide)
  separators_all := nofun
  named := ⟨0x7A, by decide, by decide⟩

/-- Nothing is left of `.zip`. -/
theorem bareZip_not_beside : ¬ Beside bareZip (fileDestination bareZip.text) := by
  have hdest : fileDestination bareZip.text = [] := by decide
  rw [hdest]
  rintro ⟨-, name, heq, hname, -⟩
  exact hname heq.symm

/-- `d\a.zip`. -/
def letterZip : ArchivePath where
  dir := wide "d\\"
  name := wide "a.zip"
  separators := []
  dir_ends _ := ⟨wide "d", 0x5C, by decide, by decide⟩
  name_plain := plain_of_all (by decide)
  separators_all := nofun
  named := ⟨0x61, by decide, by decide⟩

/-- Its extension is stripped, and it is extracted to a path beside it. -/
theorem letterZip_beside :
    Stripped letterZip.text (pathStripExtension letterZip.text) ∧
      Beside letterZip (fileDestination letterZip.text) :=
  ⟨(fileDestination_iff letterZip).1 (by decide),
    (fileDestination_iff letterZip).2.1.mpr (.inr ⟨by decide, rfl⟩)⟩

end Baulk.Archive
