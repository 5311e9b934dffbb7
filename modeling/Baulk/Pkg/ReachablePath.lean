import Baulk.Path.Slash
import Baulk.Support.Cut

/-!
# The path of a link that is reachable

`path_reachable_cat` looks for the target of a link below the folder of its
package.  When it is not where the manifest says, the leading components are left
out, one after the other.  Callers pass the path of the manifest as
`newRelativePath` and record what is in it afterwards.
-/

namespace Baulk.Pkg

open WinPath

/-- `path::c_str`, as `append` reads it. -/
def cStr (p : WString) : WString :=
  p.takeWhile (· ≠ 0)

/-- One component more in `newRelativePath`. -/
def appendRelative (newRelativePath p : WString) : WString :=
  (if newRelativePath = [] then newRelativePath else newRelativePath ++ [0x5C]) ++ cStr p

/-- `make_reachable_path`: the path, and `newRelativePath`. -/
def makeReachablePath (packageRoot : WString) (pv : List WString) : WString × WString :=
  (pv.foldl slash packageRoot, pv.foldl appendRelative [])

/-- The loop of `path_reachable_cat`, over the components from the next one on. -/
def probe (present : WString → Bool) (packageRoot : WString) :
    List WString → WString → Option WString × WString
  | [], newRelativePath => (none, newRelativePath)
  | item :: items, _ =>
      let (newLinkPath, newRelativePath) := makeReachablePath packageRoot (item :: items)
      if present newLinkPath then (some newLinkPath, newRelativePath)
      else probe present packageRoot items newRelativePath

/-- `path_reachable_cat`, with `std::filesystem::exists` as it answers for the
text of a path. -/
def pathReachableCat (present : WString → Bool)
    (packageRoot relativePath newRelativePath : WString) : Option WString × WString :=
  let linkPath := slash packageRoot relativePath
  if present linkPath then (some linkPath, newRelativePath)
  else probe present packageRoot (elements relativePath).tail newRelativePath

/-! ## What is reachable -/

/-- The text of a suffix of the components: all of them are the path itself. -/
def suffixText (relativePath : WString) (s : List WString) : WString :=
  if s = elements relativePath then relativePath else joinParts s

def ComponentSuffix (relativePath : WString) (s : List WString) : Prop :=
  s <:+ elements relativePath ∧ s ≠ []

/-- Some of the last components, or all of them even if there are none. -/
def Candidate (relativePath : WString) (s : List WString) : Prop :=
  s <:+ elements relativePath ∧ (s ≠ [] ∨ s = elements relativePath)

/-- The path is that of the longest suffix that is there, and `newRelativePath` is
that suffix. -/
structure Reaches (suffix : List WString → Prop) (present : WString → Bool)
    (packageRoot relativePath : WString) (out : Option WString × WString) : Prop where
  isSome_iff : out.1.isSome = true ↔
    ∃ s, suffix s ∧ present (slash packageRoot (suffixText relativePath s)) = true
  longest : ∀ path, out.1 = some path → ∃ s, suffix s ∧ present path = true ∧
    path = slash packageRoot out.2 ∧ out.2 = suffixText relativePath s ∧
    ∀ s', suffix s' → s.length < s'.length →
      present (slash packageRoot (suffixText relativePath s')) = false

/-! ## The components -/

theorem cStr_eq {p : WString} (h : (0 : WChar) ∉ p) : cStr p = p := by
  have hall : p.takeWhile (· ≠ 0) ++ p.dropWhile (· ≠ 0) = p := List.takeWhile_append_dropWhile
  rwa [Support.dropWhile_ne_of_not_mem h, List.append_nil] at hall

theorem foldl_appendRelative_of_ne_nil {cs : List WString} (h : AreNames cs)
    (hnul : ∀ c ∈ cs, (0 : WChar) ∉ c) {acc : WString} (hacc : acc ≠ []) :
    cs.foldl appendRelative acc = acc ++ 0x5C :: joinParts cs := by
  induction h generalizing acc with
  | @single c hc =>
      simp [appendRelative, hacc, cStr_eq (hnul c List.mem_cons_self), joinParts,
        List.intercalate]
  | @cons c cs hc hcs ih =>
      obtain ⟨d, cs, rfl⟩ := List.exists_cons_of_ne_nil hcs.ne_nil
      have hstep : appendRelative acc c = acc ++ 0x5C :: c := by
        simp [appendRelative, hacc, cStr_eq (hnul c List.mem_cons_self)]
      rw [List.foldl_cons, hstep, ih (fun c' hc' => hnul c' (List.mem_cons_of_mem _ hc'))
        (by simp), joinParts_cons]
      simp

/-- `newRelativePath` is the text of the components. -/
theorem foldl_appendRelative {cs : List WString} (h : AreNames cs)
    (hnul : ∀ c ∈ cs, (0 : WChar) ∉ c) : cs.foldl appendRelative [] = joinParts cs := by
  cases h with
  | @single c hc =>
      simp [appendRelative, cStr_eq (hnul c List.mem_cons_self), joinParts, List.intercalate]
  | @cons c cs hc hcs =>
      obtain ⟨d, cs, rfl⟩ := List.exists_cons_of_ne_nil hcs.ne_nil
      have hstep : appendRelative [] c = c := by
        simp [appendRelative, cStr_eq (hnul c List.mem_cons_self)]
      rw [List.foldl_cons, hstep, joinParts_cons,
        foldl_appendRelative_of_ne_nil hcs
          (fun c' hc' => hnul c' (List.mem_cons_of_mem _ hc')) hc.ne_nil]

theorem areNames_of_suffix {cs s : List WString} (h : AreNames cs) (hs : s <:+ cs)
    (hne : s ≠ []) : AreNames s := by
  induction h with
  | single hc =>
      rcases List.suffix_cons_iff.mp hs with rfl | hnil
      · exact .single hc
      · exact absurd (List.suffix_nil.mp hnil) hne
  | cons hc hcs ih =>
      rcases List.suffix_cons_iff.mp hs with rfl | hs
      · exact .cons hc hcs
      · exact ih hs

theorem areNames_of_parts {parts : List WString} (h : ∀ c ∈ parts, IsName c) {back : List WString}
    (hback : back = [] ∧ parts ≠ [] ∨ back = [[]]) : AreNames (parts ++ back) := by
  induction parts with
  | nil =>
      rcases hback with ⟨-, hne⟩ | rfl
      · exact absurd rfl hne
      · exact .single (.inr rfl)
  | cons c parts ih =>
      have hc := h c List.mem_cons_self
      have hrest := fun c' hc' => h c' (List.mem_cons_of_mem _ hc')
      rcases hback with ⟨rfl, -⟩ | rfl
      · cases parts with
        | nil => exact .single (.inl hc)
        | cons d parts => exact .cons hc (ih hrest (.inl (And.intro rfl (List.cons_ne_nil _ _))))
      · exact .cons hc (ih hrest (.inr rfl))

theorem elements_of_rootless {s : WString} (h : Rootless s) :
    elements s = (ofText s).parts ++ if (ofText s).trailing then [[]] else [] := by
  unfold elements
  dsimp only
  rw [if_pos h.1, h.1, List.drop_zero, h.2]
  rfl

/-- The components of a path without a root are names, if none has a root name. -/
theorem areNames_elements {s : WString} (h : Rootless s)
    (hnames : ∀ c ∈ elements s, rootNameLength c = 0) (hne : elements s ≠ []) :
    AreNames (elements s) := by
  rw [elements_of_rootless h] at hnames hne ⊢
  refine areNames_of_parts (fun c hc => ?_) ?_
  · obtain ⟨hcne, hcsep⟩ := (ofText s).parts_valid c hc
    exact ⟨hcne, hcsep, hnames c (List.mem_append_left _ hc)⟩
  · cases htrailing : (ofText s).trailing with
    | true => exact .inr rfl
    | false =>
        rw [htrailing] at hne
        exact .inl (And.intro rfl fun hnil => hne (by rw [hnil]; rfl))

theorem mem_of_mem_elements {s c : WString} (h : Rootless s) (hc : c ∈ elements s) {x : WChar}
    (hx : x ∈ c) : x ∈ s := by
  rw [elements_of_rootless h] at hc
  rcases List.mem_append.mp hc with hc | hc
  · have hsub : c.Sublist (s.drop (rootNameLength s)) :=
      Support.sublist_of_mem_splitOnP (List.mem_of_mem_filter hc)
    exact List.mem_of_mem_drop (hsub.subset hx)
  · split at hc
    · rw [List.mem_singleton] at hc
      rw [hc] at hx
      cases hx
    · cases hc

/-! ## The loop -/

/-- The loop ends at the longest suffix that is there, if there is one. -/
theorem probe_cases (present : WString → Bool) (packageRoot : WString) (items : List WString)
    (newRelativePath : WString) :
    (∃ s, s <:+ items ∧ s ≠ [] ∧ present (s.foldl slash packageRoot) = true ∧
        probe present packageRoot items newRelativePath =
          (some (s.foldl slash packageRoot), s.foldl appendRelative []) ∧
        ∀ s', s' <:+ items → s.length < s'.length → present (s'.foldl slash packageRoot) = false) ∨
      ((probe present packageRoot items newRelativePath).1 = none ∧
        ∀ s', s' <:+ items → s' ≠ [] → present (s'.foldl slash packageRoot) = false) := by
  induction items generalizing newRelativePath with
  | nil => exact .inr (And.intro rfl fun s' hs' hne => absurd (List.suffix_nil.mp hs') hne)
  | cons item items ih =>
      cases hpresent : present ((item :: items).foldl slash packageRoot) with
      | true =>
          refine .inl ⟨item :: items, List.suffix_refl _, List.cons_ne_nil _ _, hpresent, ?_, ?_⟩
          · unfold probe makeReachablePath
            dsimp only
            rw [if_pos hpresent]
          · intro s' hs' hlength
            have hle := hs'.length_le
            omega
      | false =>
          have hnext : probe present packageRoot (item :: items) newRelativePath =
              probe present packageRoot items ((item :: items).foldl appendRelative []) := by
            rw [probe, makeReachablePath]
            dsimp only
            rw [hpresent]
            rfl
          rw [hnext]
          rcases ih ((item :: items).foldl appendRelative []) with
            ⟨s, hs, hne, hthere, hout, hlonger⟩ | ⟨hnone, hall⟩
          · refine .inl ⟨s, hs.trans (List.suffix_cons _ _), hne, hthere, hout, ?_⟩
            intro s' hs' hlength
            rcases List.suffix_cons_iff.mp hs' with rfl | hs'
            · exact hpresent
            · exact hlonger s' hs' hlength
          · refine .inr (And.intro hnone fun s' hs' hne => ?_)
            rcases List.suffix_cons_iff.mp hs' with rfl | hs'
            · exact hpresent
            · exact hall s' hs' hne

/-! ## The answer -/

section Answer

variable {present : WString → Bool} {packageRoot relativePath : WString}

theorem suffixText_elements (relativePath : WString) :
    suffixText relativePath (elements relativePath) = relativePath :=
  if_pos rfl

/-- The candidates are the path itself and the suffixes that the loop goes over. -/
theorem candidate_iff {s : List WString} :
    Candidate relativePath s ↔
      s = elements relativePath ∨ s <:+ (elements relativePath).tail ∧ s ≠ [] := by
  unfold Candidate
  cases helements : elements relativePath with
  | nil =>
      rw [List.suffix_nil]
      constructor
      · rintro ⟨h, -⟩
        exact .inl h
      · rintro (h | ⟨h, hne⟩)
        · exact And.intro h (.inr h)
        · exact absurd (List.suffix_nil.mp h) hne
  | cons item items =>
      rw [List.suffix_cons_iff, List.tail_cons]
      constructor
      · rintro ⟨h | h, hne⟩
        · exact .inl h
        · rcases hne with hne | hne
          · exact .inr (And.intro h hne)
          · exact .inl hne
      · rintro (rfl | ⟨h, hne⟩)
        · exact And.intro (.inl rfl) (.inr rfl)
        · exact And.intro (.inr h) (.inl hne)

/-- A suffix that the loop goes over is looked for where its text says, and the
text is what it leaves in `newRelativePath`. -/
theorem probed_suffix (hrel : Rootless relativePath)
    (hnames : ∀ c ∈ elements relativePath, rootNameLength c = 0)
    (hnul : (0 : WChar) ∉ relativePath) (packageRoot : WString) {s : List WString}
    (hs : s <:+ (elements relativePath).tail) (hne : s ≠ []) :
    s.foldl slash packageRoot = slash packageRoot (suffixText relativePath s) ∧
      s.foldl appendRelative [] = suffixText relativePath s := by
  have hsuffix : s <:+ elements relativePath := hs.trans (List.tail_suffix _)
  have hall : elements relativePath ≠ [] := fun hnil => by
    rw [hnil] at hsuffix
    exact hne (List.suffix_nil.mp hsuffix)
  have hareNames := areNames_of_suffix (areNames_elements hrel hnames hall) hsuffix hne
  have hproper : s ≠ elements relativePath := by
    intro heq
    have hle := hs.length_le
    have hpos := List.length_pos_iff.mpr hall
    rw [List.length_tail, heq] at hle
    omega
  unfold suffixText
  rw [if_neg hproper]
  exact And.intro (foldl_slash hareNames packageRoot)
    (foldl_appendRelative hareNames fun c hc hmem =>
      hnul (mem_of_mem_elements hrel (hsuffix.subset hc) hmem))

theorem reaches_of_found {suffix : List WString → Prop} {s : List WString} (hs : suffix s)
    (hthere : present (slash packageRoot (suffixText relativePath s)) = true)
    (hlonger : ∀ s', suffix s' → s.length < s'.length →
      present (slash packageRoot (suffixText relativePath s')) = false) :
    Reaches suffix present packageRoot relativePath
      (some (slash packageRoot (suffixText relativePath s)), suffixText relativePath s) := by
  constructor
  · exact iff_of_true rfl ⟨s, hs, hthere⟩
  · intro path hpath
    cases hpath
    exact ⟨s, hs, hthere, rfl, rfl, hlonger⟩

theorem reaches_of_none {suffix : List WString → Prop} {out : Option WString × WString}
    (hnone : out.1 = none)
    (hall : ∀ s, suffix s → present (slash packageRoot (suffixText relativePath s)) = false) :
    Reaches suffix present packageRoot relativePath out := by
  constructor
  · rw [hnone]
    refine iff_of_false nofun ?_
    rintro ⟨s, hs, hthere⟩
    rw [hall s hs] at hthere
    cases hthere
  · intro path hpath
    rw [hnone] at hpath
    cases hpath

/-- For a relative path of names, the answer is the longest suffix that is there,
under the folder of the package and in `newRelativePath`. -/
theorem pathReachableCat_reaches (hrel : Rootless relativePath)
    (hnames : ∀ c ∈ elements relativePath, rootNameLength c = 0)
    (hnul : (0 : WChar) ∉ relativePath) :
    Reaches (Candidate relativePath) present packageRoot relativePath
      (pathReachableCat present packageRoot relativePath relativePath) := by
  have hprobed := fun {s} => probed_suffix hrel hnames hnul packageRoot (s := s)
  unfold pathReachableCat
  dsimp only
  split
  · next hpresent =>
    have hwhole : Candidate relativePath (elements relativePath) := candidate_iff.mpr (.inl rfl)
    have hthere : present (slash packageRoot
        (suffixText relativePath (elements relativePath))) = true := by
      rwa [suffixText_elements]
    have hreaches := reaches_of_found hwhole hthere fun s' hs' hlength => by
      have hle := hs'.1.length_le
      omega
    rwa [suffixText_elements] at hreaches
  · next hpresent =>
    rw [Bool.not_eq_true] at hpresent
    -- Every suffix that is not looked for in the loop is the path itself.
    have habsent : ∀ s, Candidate relativePath s →
        (s <:+ (elements relativePath).tail → s ≠ [] →
          present (s.foldl slash packageRoot) = false) →
        present (slash packageRoot (suffixText relativePath s)) = false := by
      intro s hs hprobe
      rcases candidate_iff.mp hs with rfl | ⟨htail, hne⟩
      · rwa [suffixText_elements]
      · rw [← (hprobed htail hne).1]
        exact hprobe htail hne
    rcases probe_cases present packageRoot (elements relativePath).tail relativePath with
      ⟨s, hs, hne, hthere, hout, hlonger⟩ | ⟨hnone, hall⟩
    · obtain ⟨hpath, htext⟩ := hprobed hs hne
      rw [hout, hpath, htext]
      rw [hpath] at hthere
      exact reaches_of_found (candidate_iff.mpr (.inr (And.intro hs hne))) hthere
        fun s' hs' hlength => habsent s' hs' fun htail _ => hlonger s' htail hlength
    · exact reaches_of_none hnone fun s hs => habsent s hs fun htail hne => hall s htail hne

end Answer

theorem pathReachableCat_reaches_sample :
    Reaches (Candidate (wide "x/bin/a.exe")) (fun path => path == wide "D:\\pkg\\bin\\a.exe")
      (wide "D:\\pkg") (wide "x/bin/a.exe")
      (pathReachableCat (fun path => path == wide "D:\\pkg\\bin\\a.exe") (wide "D:\\pkg")
        (wide "x/bin/a.exe") (wide "x/bin/a.exe")) :=
  pathReachableCat_reaches (by decide) (by decide) (by decide)

/-- An empty path finds the folder itself.  A component with a root name leaves the
folder, and a NUL ends what is recorded. -/
theorem not_reaches_componentSuffix :
    ¬Reaches (ComponentSuffix []) (fun _ => true) (wide "D:\\pkg") []
        (pathReachableCat (fun _ => true) (wide "D:\\pkg") [] []) ∧
      ¬Reaches (ComponentSuffix (wide "a/C:/b")) (fun path => path == wide "C:b")
        (wide "D:\\pkg") (wide "a/C:/b")
        (pathReachableCat (fun path => path == wide "C:b") (wide "D:\\pkg") (wide "a/C:/b")
          (wide "a/C:/b")) ∧
      ¬Reaches (ComponentSuffix (wide "a/b" ++ [0]))
        (fun path => path == wide "D:\\pkg\\b" ++ [0]) (wide "D:\\pkg") (wide "a/b" ++ [0])
        (pathReachableCat (fun path => path == wide "D:\\pkg\\b" ++ [0]) (wide "D:\\pkg")
          (wide "a/b" ++ [0]) (wide "a/b" ++ [0])) := by
  refine ⟨fun h => ?_, fun h => ?_, fun h => ?_⟩
  · obtain ⟨s, ⟨hs, hne⟩, -⟩ := h.isSome_iff.mp (by decide)
    have hnil : elements [] = [] := by decide
    rw [hnil] at hs
    exact hne (List.suffix_nil.mp hs)
  · obtain ⟨s, -, -, hpath, -⟩ := h.longest (wide "C:b") (by decide)
    exact absurd hpath (by decide)
  · obtain ⟨s, -, -, hpath, -⟩ := h.longest (wide "D:\\pkg\\b" ++ [0]) (by decide)
    exact absurd hpath (by decide)

end Baulk.Pkg
