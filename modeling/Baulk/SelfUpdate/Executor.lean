import Baulk.Core.Wide
import Mathlib.Data.List.Nodup
import Mathlib.Logic.Function.Basic

/-!
# `baulk-update`

The files of a new release are moved into the installation one by one, whether
this works or not.  The two programs that may be running are replaced last: the
old one is renamed, and then the new one is moved to its place.
-/

namespace Baulk.SelfUpdate

/-- The files of a folder; paths are relative to it. -/
abbrev Files := List WString → Option Bytes

/-- The files of a new release, in the order of their listing. -/
structure Release where
  files : List (List WString × Bytes)
  nodup : (files.map Prod.fst).Nodup

def Release.tree (r : Release) : Files :=
  fun p => (r.files.find? fun file => file.1 = p).map Prod.snd

/-- The calls that fail. -/
structure Failures where
  createDirectories : List WString → Bool := fun _ => false
  rename : List WString → Bool := fun _ => false
  /-- `baulk-exec.exe` to `baulk-exec.del`. -/
  execDiscard : Bool := false
  /-- The new `baulk-exec.exe` to its place, when the old one is away. -/
  execFirst : Bool := false
  /-- The same once more. -/
  execSecond : Bool := false
  /-- The new `baulk-exec.exe` to `baulk-exec.new`. -/
  execNew : Bool := false
  /-- `baulk-update.exe` to `baulk-update.del`. -/
  updateDiscard : Bool := false
  /-- The new `baulk-update.exe` to its place. -/
  updateNew : Bool := false

/-- The extracted release and the installation. -/
structure Install where
  source : Files
  location : Files
  /-- What `apply_baulk_files` has moved. -/
  moved : List (List WString) := []

/-! ## Renaming -/

/-- `rename`, of a file of the release into the installation. -/
def Install.renameIn (s : Install) (fails : Bool) (path target : List WString) :
    Bool × Install :=
  match s.source path with
  | none => (false, s)
  | some content =>
      if fails then (false, s)
      else
        (true, { s with
          source := Function.update s.source path none
          location := Function.update s.location target (some content) })

/-- `rename`, of a file of the installation. -/
def Install.renameAside (s : Install) (fails : Bool)
    (path target : List WString) : Bool × Install :=
  match s.location path with
  | none => (false, s)
  | some content =>
      if fails then (false, s)
      else
        (true, { s with
          location := Function.update (Function.update s.location path none)
            target (some content) })

/-! ## The files -/

def execFile : List WString := [wide "bin", wide "baulk-exec.exe"]

def execDel : List WString := [wide "bin", wide "baulk-exec.del"]

def execNewFile : List WString := [wide "bin", wide "baulk-exec.new"]

def updateFile : List WString := [wide "bin", wide "baulk-update.exe"]

def updateDel : List WString := [wide "bin", wide "baulk-update.del"]

def fileFilter (p : List WString) : Bool :=
  [execFile, updateFile, [wide "config", wide "baulk.json"],
    [wide "baulk.env"]].contains p

def checkedMoveFile (f : Failures) (s : Install) (p : List WString) :
    Bool × Install :=
  if f.createDirectories p then (false, s)
  else
    let result := s.renameIn (f.rename p) p p
    if result.1 then (true, { result.2 with moved := p :: s.moved })
    else (false, s)

/-- One pass of the loop of `apply_baulk_files`. -/
def applyFile (f : Failures) (s : Install) (p : List WString) : Install :=
  if fileFilter p then s else (checkedMoveFile f s p).2

def applyBaulkFiles (f : Failures) (r : Release) (location : Files) :
    Bool × Install :=
  (true, (r.files.map Prod.fst).foldl (applyFile f) { source := r.tree, location })

def replaceBaulkExec (f : Failures) (s : Install) : Bool × Install :=
  let attempt :=
    if (s.location execFile).isSome then
      let aside := s.renameAside f.execDiscard execFile execDel
      if aside.1 then aside.2.renameIn f.execFirst execFile execFile else aside
    else (false, s)
  if attempt.1 then attempt
  else
    let second := attempt.2.renameIn f.execSecond execFile execFile
    if second.1 then second
    else second.2.renameIn f.execNew execFile execNewFile

def replaceBaulkUpdate (f : Failures) (s : Install) : Bool × Install :=
  let aside := s.renameAside f.updateDiscard updateFile updateDel
  if aside.1 then aside.2.renameIn f.updateNew updateFile updateFile else aside

def replaceBaulkFiles (f : Failures) (s : Install) : Bool × Install :=
  let exec := replaceBaulkExec f s
  if exec.1 then replaceBaulkUpdate f exec.2 else exec

/-- What `Execute` gets before it changes the installation. -/
inductive Fetched where
  /-- `latest_download_url` returns false. -/
  | current
  /-- `download_file` or `extract_file` fails. -/
  | failed
  | extracted (r : Release)

def execute (f : Failures) (fetched : Fetched) (location : Files) :
    Bool × Install :=
  match fetched with
  | .current => (true, { source := fun _ => none, location })
  | .failed => (false, { source := fun _ => none, location })
  | .extracted r =>
      let applied := applyBaulkFiles f r location
      if applied.1 then replaceBaulkFiles f applied.2 else applied

/-! ## What the update is for -/

/-- A program that was there is there, the old or the new one. -/
def StillThere (before new after : Files) (p : List WString) : Prop :=
  before p ≠ none → after p ≠ none ∧ (after p = before p ∨ after p = new p)

/-- Both programs are still there, and true is returned only if all files that
are not filtered were moved. -/
structure Sound (r : Release) (location : Files) (result : Bool × Install) :
    Prop where
  exec : StillThere location r.tree result.2.location execFile
  update : StillThere location r.tree result.2.location updateFile
  verdict : result.1 = true → ∀ p ∈ r.files.map Prod.fst,
    fileFilter p = false → p ∈ result.2.moved

def Moves (f : Failures) (p : List WString) : Prop :=
  f.createDirectories p = false ∧ f.rename p = false

/-- A new `baulk-exec.exe` comes to its place, or beside it. -/
def ExecReplaced (f : Failures) (location : Files) (r : Release) : Prop :=
  r.tree execFile ≠ none ∧
    (location execFile ≠ none ∧ f.execDiscard = false ∧ f.execFirst = false ∨
      f.execSecond = false ∨ f.execNew = false)

/-- What must not come together. -/
structure UpdateSafe (f : Failures) (location : Files) (r : Release) : Prop where
  /-- The old `baulk-exec.exe` is renamed, and no new one comes to its place. -/
  exec : ¬ (location execFile ≠ none ∧ f.execDiscard = false ∧
    (r.tree execFile = none ∨ f.execFirst = true ∧ f.execSecond = true))
  /-- The old `baulk-update.exe` is renamed, and no new one comes to its place. -/
  update : ExecReplaced f location r →
    ¬ (location updateFile ≠ none ∧ f.updateDiscard = false ∧
      (r.tree updateFile = none ∨ f.updateNew = true))
  /-- Both programs are replaced, but a file is not moved. -/
  verdict : ExecReplaced f location r → location updateFile ≠ none →
    f.updateDiscard = false → r.tree updateFile ≠ none → f.updateNew = false →
    ∀ p ∈ r.files.map Prod.fst, fileFilter p = false → Moves f p

/-! ## One rename -/

section Renames

variable {s : Install} {p target : List WString} {content : Bytes}

theorem renameIn_failed {fails : Bool} (h : s.source p = none ∨ fails = true) :
    s.renameIn fails p target = (false, s) := by
  unfold Install.renameIn
  rcases h with h | h
  · rw [h]
  · rw [h]
    cases s.source p with
    | none => rfl
    | some content => rfl

theorem renameIn_some (h : s.source p = some content) :
    s.renameIn false p target =
      (true, { s with
        source := Function.update s.source p none
        location := Function.update s.location target (some content) }) := by
  unfold Install.renameIn
  rw [h]
  rfl

theorem renameIn_of_ne {fails : Bool} {q : List WString} (h : q ≠ target) :
    (s.renameIn fails p target).2.location q = s.location q := by
  by_cases hfails : s.source p = none ∨ fails = true
  · rw [renameIn_failed hfails]
  · rw [not_or, Bool.not_eq_true] at hfails
    obtain ⟨content, hcontent⟩ := Option.ne_none_iff_exists'.mp hfails.1
    rw [hfails.2, renameIn_some hcontent]
    exact Function.update_of_ne h _ _

theorem renameIn_source {fails : Bool} {q : List WString} (h : q ≠ p) :
    (s.renameIn fails p target).2.source q = s.source q := by
  by_cases hfails : s.source p = none ∨ fails = true
  · rw [renameIn_failed hfails]
  · rw [not_or, Bool.not_eq_true] at hfails
    obtain ⟨content, hcontent⟩ := Option.ne_none_iff_exists'.mp hfails.1
    rw [hfails.2, renameIn_some hcontent]
    exact Function.update_of_ne h _ _

theorem renameIn_moved {fails : Bool} :
    (s.renameIn fails p target).2.moved = s.moved := by
  by_cases hfails : s.source p = none ∨ fails = true
  · rw [renameIn_failed hfails]
  · rw [not_or, Bool.not_eq_true] at hfails
    obtain ⟨content, hcontent⟩ := Option.ne_none_iff_exists'.mp hfails.1
    rw [hfails.2, renameIn_some hcontent]

theorem renameAside_failed {fails : Bool}
    (h : s.location p = none ∨ fails = true) :
    s.renameAside fails p target = (false, s) := by
  unfold Install.renameAside
  rcases h with h | h
  · rw [h]
  · rw [h]
    cases s.location p with
    | none => rfl
    | some content => rfl

theorem renameAside_some (h : s.location p = some content) :
    s.renameAside false p target =
      (true, { s with
        location := Function.update (Function.update s.location p none)
          target (some content) }) := by
  unfold Install.renameAside
  rw [h]
  rfl

end Renames

/-! ## All files -/

section Files

variable {f : Failures} {s : Install}

theorem applyFile_filtered {p : List WString} (h : fileFilter p = true) :
    applyFile f s p = s := by
  unfold applyFile
  rw [if_pos h]

theorem applyFile_failed {p : List WString} (h : ¬ (Moves f p ∧ s.source p ≠ none)) :
    applyFile f s p = s := by
  unfold applyFile checkedMoveFile
  by_cases hfilter : fileFilter p = true
  · rw [if_pos hfilter]
  rw [if_neg hfilter]
  by_cases hcreate : f.createDirectories p = true
  · rw [if_pos hcreate]
  rw [if_neg hcreate]
  have hfails : s.source p = none ∨ f.rename p = true := by
    by_contra hnot
    rw [not_or, Bool.not_eq_true] at hnot
    exact h ⟨⟨Bool.eq_false_of_not_eq_true hcreate, hnot.2⟩, hnot.1⟩
  rw [renameIn_failed hfails]
  rfl

theorem applyFile_moved {p : List WString} {content : Bytes}
    (hfilter : fileFilter p = false) (hmoves : Moves f p)
    (hsource : s.source p = some content) :
    applyFile f s p =
      { source := Function.update s.source p none
        location := Function.update s.location p (some content)
        moved := p :: s.moved } := by
  unfold applyFile checkedMoveFile
  rw [hfilter, if_neg Bool.false_ne_true, hmoves.1, if_neg Bool.false_ne_true,
    hmoves.2, renameIn_some hsource]
  rfl

theorem applyFile_of_ne {p q : List WString} (h : q ≠ p) :
    (applyFile f s p).source q = s.source q ∧
      (applyFile f s p).location q = s.location q ∧
      (q ∈ (applyFile f s p).moved ↔ q ∈ s.moved) := by
  by_cases hfilter : fileFilter p = true
  · rw [applyFile_filtered hfilter]
    exact ⟨rfl, rfl, Iff.rfl⟩
  by_cases hmoves : Moves f p ∧ s.source p ≠ none
  · obtain ⟨content, hsource⟩ := Option.ne_none_iff_exists'.mp hmoves.2
    rw [applyFile_moved (Bool.eq_false_of_not_eq_true hfilter) hmoves.1 hsource]
    refine ⟨Function.update_of_ne h _ _, Function.update_of_ne h _ _, ?_⟩
    rw [List.mem_cons]
    constructor
    · rintro (heq | hmem)
      · exact absurd heq h
      · exact hmem
    · exact .inr
  · rw [applyFile_failed hmoves]
    exact ⟨rfl, rfl, Iff.rfl⟩

theorem applyFiles_of_not_mem {l : List (List WString)} {q : List WString}
    (h : q ∉ l) :
    (l.foldl (applyFile f) s).source q = s.source q ∧
      (l.foldl (applyFile f) s).location q = s.location q ∧
      (q ∈ (l.foldl (applyFile f) s).moved ↔ q ∈ s.moved) := by
  induction l generalizing s with
  | nil => exact ⟨rfl, rfl, Iff.rfl⟩
  | cons p l ih =>
      rw [List.mem_cons, not_or] at h
      obtain ⟨hsource, hlocation, hmoved⟩ := applyFile_of_ne (f := f) (s := s) h.1
      obtain ⟨hsource', hlocation', hmoved'⟩ := ih (s := applyFile f s p) h.2
      exact ⟨hsource'.trans hsource, hlocation'.trans hlocation,
        hmoved'.trans hmoved⟩

theorem applyFiles_filtered {l : List (List WString)} {q : List WString}
    (h : fileFilter q = true) :
    (l.foldl (applyFile f) s).source q = s.source q ∧
      (l.foldl (applyFile f) s).location q = s.location q := by
  induction l generalizing s with
  | nil => exact ⟨rfl, rfl⟩
  | cons p l ih =>
      obtain ⟨hsource, hlocation⟩ := ih (s := applyFile f s p)
      by_cases hq : q = p
      · rw [List.foldl_cons, applyFile_filtered (hq ▸ h)]
        exact ih
      · obtain ⟨hsource', hlocation', -⟩ := applyFile_of_ne (f := f) (s := s) hq
        exact ⟨hsource.trans hsource', hlocation.trans hlocation'⟩

theorem applyFiles_moved {l : List (List WString)} (hnodup : l.Nodup)
    {q : List WString} (hq : q ∈ l) (hfilter : fileFilter q = false)
    {content : Bytes} (hsource : s.source q = some content) (hnew : q ∉ s.moved) :
    (q ∈ (l.foldl (applyFile f) s).moved ↔ Moves f q) ∧
      (Moves f q → (l.foldl (applyFile f) s).location q = some content) := by
  induction l generalizing s with
  | nil => exact absurd hq List.not_mem_nil
  | cons p l ih =>
      obtain ⟨hp, hnodup⟩ := List.nodup_cons.mp hnodup
      rw [List.foldl_cons]
      by_cases hqp : q = p
      · obtain ⟨-, hlocation, hmoved⟩ :=
          applyFiles_of_not_mem (f := f) (s := applyFile f s p) (hqp ▸ hp)
        rw [hmoved, hlocation, ← hqp]
        by_cases hmoves : Moves f q
        · rw [applyFile_moved hfilter hmoves hsource]
          refine ⟨iff_of_true List.mem_cons_self hmoves, fun _ => ?_⟩
          exact Function.update_self _ _ _
        · rw [applyFile_failed fun h => hmoves h.1]
          exact ⟨iff_of_false hnew hmoves, fun h => absurd h hmoves⟩
      · obtain ⟨hsource', -, hmoved'⟩ := applyFile_of_ne (f := f) (s := s) hqp
        refine ih hnodup ?_ (hsource'.trans hsource) (mt hmoved'.mp hnew)
        rcases List.mem_cons.mp hq with heq | hmem
        · exact absurd heq hqp
        · exact hmem

theorem tree_ne_none {r : Release} {p : List WString}
    (h : p ∈ r.files.map Prod.fst) : ∃ content, r.tree p = some content := by
  obtain ⟨file, hmem, rfl⟩ := List.mem_map.mp h
  unfold Release.tree
  cases hfind : r.files.find? fun other => other.1 = file.1 with
  | none =>
      have hnot := List.find?_eq_none.mp hfind file hmem
      exact absurd (decide_eq_true rfl) hnot
  | some found => exact ⟨found.2, rfl⟩

end Files

/-! ## The programs -/

section Programs

variable {f : Failures} {s : Install}

/-- The old `baulk-exec.exe` is renamed. -/
def ExecAside (f : Failures) (s : Install) : Prop :=
  s.location execFile ≠ none ∧ f.execDiscard = false

/-- What `replace_baulk_exec` starts its second attempt from. -/
def execAsideState (f : Failures) (s : Install) : Install :=
  (s.renameAside f.execDiscard execFile execDel).2

theorem execAsideState_failed (h : ¬ ExecAside f s) : execAsideState f s = s := by
  have hfails : s.location execFile = none ∨ f.execDiscard = true := by
    by_contra hnot
    rw [not_or, Bool.not_eq_true] at hnot
    exact h hnot
  unfold execAsideState
  rw [renameAside_failed hfails]

theorem execAsideState_of_ne {q : List WString} (hexec : q ≠ execFile)
    (hdel : q ≠ execDel) : (execAsideState f s).location q = s.location q := by
  by_cases h : ExecAside f s
  · obtain ⟨content, hcontent⟩ := Option.ne_none_iff_exists'.mp h.1
    unfold execAsideState
    rw [h.2, renameAside_some hcontent]
    exact (Function.update_of_ne hdel _ _).trans (Function.update_of_ne hexec _ _)
  · rw [execAsideState_failed h]

theorem execAsideState_source : (execAsideState f s).source = s.source := by
  by_cases h : ExecAside f s
  · obtain ⟨content, hcontent⟩ := Option.ne_none_iff_exists'.mp h.1
    unfold execAsideState
    rw [h.2, renameAside_some hcontent]
  · rw [execAsideState_failed h]

theorem execAsideState_moved : (execAsideState f s).moved = s.moved := by
  by_cases h : ExecAside f s
  · obtain ⟨content, hcontent⟩ := Option.ne_none_iff_exists'.mp h.1
    unfold execAsideState
    rw [h.2, renameAside_some hcontent]
  · rw [execAsideState_failed h]

/-- After the old program is renamed its place is empty. -/
theorem execAsideState_exec (h : ExecAside f s) :
    (execAsideState f s).location execFile = none := by
  obtain ⟨content, hcontent⟩ := Option.ne_none_iff_exists'.mp h.1
  unfold execAsideState
  rw [h.2, renameAside_some hcontent]
  have hne : execFile ≠ execDel := by decide
  simp only
  rw [Function.update_of_ne hne, Function.update_self]

/-- The new program comes to its place in the first attempt. -/
def ExecFirst (f : Failures) (s : Install) : Prop :=
  ExecAside f s ∧ s.source execFile ≠ none ∧ f.execFirst = false

theorem replaceBaulkExec_first (h : ExecFirst f s) :
    replaceBaulkExec f s =
      (execAsideState f s).renameIn false execFile execFile := by
  obtain ⟨haside, hsource, hfirst⟩ := h
  obtain ⟨content, hcontent⟩ := Option.ne_none_iff_exists'.mp haside.1
  obtain ⟨new, hnew⟩ := Option.ne_none_iff_exists'.mp hsource
  have hstate : (execAsideState f s).source execFile = some new := by
    rw [execAsideState_source, hnew]
  have hrenamed : s.renameAside f.execDiscard execFile execDel =
      (true, execAsideState f s) := by
    unfold execAsideState
    rw [haside.2, renameAside_some hcontent]
  unfold replaceBaulkExec
  simp only [hrenamed, hfirst, hcontent, renameIn_some hstate, Option.isSome_some,
    if_true]

/-- Otherwise the new program is moved to its place, or else beside it. -/
theorem replaceBaulkExec_second (h : ¬ ExecFirst f s) :
    replaceBaulkExec f s =
      if s.source execFile ≠ none ∧ f.execSecond = false then
        (execAsideState f s).renameIn false execFile execFile
      else (execAsideState f s).renameIn f.execNew execFile execNewFile := by
  have hattempt : (if (s.location execFile).isSome then
      let aside := s.renameAside f.execDiscard execFile execDel
      if aside.1 then aside.2.renameIn f.execFirst execFile execFile else aside
    else (false, s)) = (false, execAsideState f s) := by
    by_cases haside : ExecAside f s
    · obtain ⟨content, hcontent⟩ := Option.ne_none_iff_exists'.mp haside.1
      have hrenamed : s.renameAside f.execDiscard execFile execDel =
          (true, execAsideState f s) := by
        unfold execAsideState
        rw [haside.2, renameAside_some hcontent]
      have hfails : (execAsideState f s).source execFile = none ∨
          f.execFirst = true := by
        rw [execAsideState_source]
        by_contra hnot
        rw [not_or, Bool.not_eq_true] at hnot
        exact h ⟨haside, hnot⟩
      simp only [hcontent, hrenamed, renameIn_failed hfails, Option.isSome_some,
        if_true]
    · rw [execAsideState_failed haside]
      have hfails : s.location execFile = none ∨ f.execDiscard = true := by
        by_contra hnot
        rw [not_or, Bool.not_eq_true] at hnot
        exact haside hnot
      simp only [renameAside_failed hfails, Bool.false_eq_true, if_false, ite_self]
  unfold replaceBaulkExec
  simp only [hattempt, Bool.false_eq_true, if_false]
  by_cases hsecond : s.source execFile ≠ none ∧ f.execSecond = false
  · obtain ⟨new, hnew⟩ := Option.ne_none_iff_exists'.mp hsecond.1
    have hstate : (execAsideState f s).source execFile = some new := by
      rw [execAsideState_source, hnew]
    rw [if_pos hsecond, hsecond.2, renameIn_some hstate, if_pos rfl]
  · have hfails : (execAsideState f s).source execFile = none ∨
        f.execSecond = true := by
      rw [execAsideState_source]
      by_contra hnot
      rw [not_or, Bool.not_eq_true] at hnot
      exact hsecond hnot
    rw [if_neg hsecond, renameIn_failed hfails, if_neg Bool.false_ne_true]

/-- The new program comes to its place. -/
def ExecPlaced (f : Failures) (s : Install) : Prop :=
  s.source execFile ≠ none ∧
    (ExecAside f s ∧ f.execFirst = false ∨ f.execSecond = false)

theorem replaceBaulkExec_placed (h : ExecPlaced f s) :
    replaceBaulkExec f s =
      (execAsideState f s).renameIn false execFile execFile := by
  by_cases hfirst : ExecFirst f s
  · exact replaceBaulkExec_first hfirst
  · rw [replaceBaulkExec_second hfirst, if_pos]
    refine ⟨h.1, ?_⟩
    rcases h.2 with ⟨haside, hexec⟩ | hsecond
    · exact absurd ⟨haside, h.1, hexec⟩ hfirst
    · exact hsecond

theorem replaceBaulkExec_beside (h : ¬ ExecPlaced f s) :
    replaceBaulkExec f s =
      (execAsideState f s).renameIn f.execNew execFile execNewFile := by
  have hfirst : ¬ ExecFirst f s := fun hfirst =>
    h ⟨hfirst.2.1, .inl ⟨hfirst.1, hfirst.2.2⟩⟩
  rw [replaceBaulkExec_second hfirst, if_neg]
  exact fun hsecond => h ⟨hsecond.1, .inr hsecond.2⟩

theorem replaceBaulkExec_iff :
    (replaceBaulkExec f s).1 = true ↔
      s.source execFile ≠ none ∧
        (ExecAside f s ∧ f.execFirst = false ∨ f.execSecond = false ∨
          f.execNew = false) := by
  by_cases hplaced : ExecPlaced f s
  · rw [replaceBaulkExec_placed hplaced]
    obtain ⟨new, hnew⟩ := Option.ne_none_iff_exists'.mp hplaced.1
    rw [← execAsideState_source (f := f)] at hnew
    rw [renameIn_some hnew]
    refine iff_of_true rfl ⟨hplaced.1, ?_⟩
    rcases hplaced.2 with hfirst | hsecond
    · exact .inl hfirst
    · exact .inr (.inl hsecond)
  · rw [replaceBaulkExec_beside hplaced]
    by_cases hnew : s.source execFile ≠ none ∧ f.execNew = false
    · obtain ⟨new, hsome⟩ := Option.ne_none_iff_exists'.mp hnew.1
      rw [← execAsideState_source (f := f)] at hsome
      rw [hnew.2, renameIn_some hsome]
      exact iff_of_true rfl ⟨hnew.1, .inr (.inr rfl)⟩
    · have hfails : (execAsideState f s).source execFile = none ∨
          f.execNew = true := by
        rw [execAsideState_source]
        by_contra hnot
        rw [not_or, Bool.not_eq_true] at hnot
        exact hnew hnot
      rw [renameIn_failed hfails]
      refine iff_of_false Bool.false_ne_true fun h => ?_
      rcases h.2 with hfirst | hsecond | hbeside
      · exact hplaced ⟨h.1, .inl hfirst⟩
      · exact hplaced ⟨h.1, .inr hsecond⟩
      · exact hnew ⟨h.1, hbeside⟩

theorem replaceBaulkExec_exec :
    (ExecPlaced f s → (replaceBaulkExec f s).2.location execFile =
      s.source execFile) ∧
    (¬ ExecPlaced f s → (replaceBaulkExec f s).2.location execFile =
      (execAsideState f s).location execFile) := by
  constructor
  · intro hplaced
    rw [replaceBaulkExec_placed hplaced]
    obtain ⟨new, hnew⟩ := Option.ne_none_iff_exists'.mp hplaced.1
    have hstate : (execAsideState f s).source execFile = some new := by
      rw [execAsideState_source, hnew]
    rw [renameIn_some hstate, hnew]
    simp only
    rw [Function.update_self]
  · intro hplaced
    rw [replaceBaulkExec_beside hplaced]
    exact renameIn_of_ne (by decide)

theorem replaceBaulkExec_update :
    (replaceBaulkExec f s).2.location updateFile = s.location updateFile ∧
      (replaceBaulkExec f s).2.source updateFile = s.source updateFile ∧
      (replaceBaulkExec f s).2.moved = s.moved := by
  have hlocation : (execAsideState f s).location updateFile =
      s.location updateFile := execAsideState_of_ne (by decide) (by decide)
  rw [← hlocation, ← execAsideState_source (f := f) (s := s),
    ← execAsideState_moved (f := f) (s := s)]
  by_cases hplaced : ExecPlaced f s
  · rw [replaceBaulkExec_placed hplaced]
    exact ⟨renameIn_of_ne (by decide), renameIn_source (by decide), renameIn_moved⟩
  · rw [replaceBaulkExec_beside hplaced]
    exact ⟨renameIn_of_ne (by decide), renameIn_source (by decide), renameIn_moved⟩

theorem replaceBaulkUpdate_failed
    (haside : ¬ (s.location updateFile ≠ none ∧ f.updateDiscard = false)) :
    replaceBaulkUpdate f s = (false, s) := by
  have hfails : s.location updateFile = none ∨ f.updateDiscard = true := by
    by_contra hnot
    rw [not_or, Bool.not_eq_true] at hnot
    exact haside hnot
  unfold replaceBaulkUpdate
  rw [renameAside_failed hfails]
  rfl

/-- The old `baulk-update.exe` is renamed, so its place is empty. -/
theorem replaceBaulkUpdate_aside
    (haside : s.location updateFile ≠ none ∧ f.updateDiscard = false) :
    ∃ s' : Install, s'.source = s.source ∧ s'.moved = s.moved ∧
      s'.location updateFile = none ∧
      s'.location execFile = s.location execFile ∧
      replaceBaulkUpdate f s = s'.renameIn f.updateNew updateFile updateFile := by
  obtain ⟨content, hcontent⟩ := Option.ne_none_iff_exists'.mp haside.1
  have hdel : updateFile ≠ updateDel := by decide
  have hexec : execFile ≠ updateFile := by decide
  have hexecDel : execFile ≠ updateDel := by decide
  refine ⟨(s.renameAside false updateFile updateDel).2, ?_⟩
  unfold replaceBaulkUpdate
  rw [haside.2, renameAside_some hcontent]
  refine ⟨rfl, rfl, ?_, ?_, rfl⟩
  · simp only
    rw [Function.update_of_ne hdel, Function.update_self]
  · simp only
    rw [Function.update_of_ne hexecDel, Function.update_of_ne hexec]

theorem replaceBaulkUpdate_iff :
    (replaceBaulkUpdate f s).1 = true ↔
      (s.location updateFile ≠ none ∧ f.updateDiscard = false) ∧
        s.source updateFile ≠ none ∧ f.updateNew = false := by
  by_cases haside : s.location updateFile ≠ none ∧ f.updateDiscard = false
  · obtain ⟨s', hsource, -, -, -, heq⟩ := replaceBaulkUpdate_aside haside
    rw [heq, ← hsource]
    by_cases hnew : s'.source updateFile ≠ none ∧ f.updateNew = false
    · obtain ⟨new, hsome⟩ := Option.ne_none_iff_exists'.mp hnew.1
      rw [hnew.2, renameIn_some hsome]
      exact iff_of_true rfl ⟨haside, hnew.1, rfl⟩
    · have hfails : s'.source updateFile = none ∨ f.updateNew = true := by
        by_contra hnot
        rw [not_or, Bool.not_eq_true] at hnot
        exact hnew hnot
      rw [renameIn_failed hfails]
      exact iff_of_false Bool.false_ne_true fun h => hnew h.2
  · rw [replaceBaulkUpdate_failed haside]
    exact iff_of_false Bool.false_ne_true fun h => haside h.1

theorem replaceBaulkUpdate_update
    (haside : s.location updateFile ≠ none ∧ f.updateDiscard = false) :
    (replaceBaulkUpdate f s).2.location updateFile =
      if f.updateNew then none else s.source updateFile := by
  obtain ⟨s', hsource, -, hempty, -, heq⟩ := replaceBaulkUpdate_aside haside
  rw [heq, ← hsource]
  cases hnew : s'.source updateFile with
  | none => rw [renameIn_failed (.inl hnew), ite_self, hempty]
  | some new =>
      cases f.updateNew with
      | true => rw [renameIn_failed (.inr rfl), if_pos rfl, hempty]
      | false =>
          rw [renameIn_some hnew, if_neg Bool.false_ne_true]
          simp only
          rw [Function.update_self]

theorem replaceBaulkUpdate_exec :
    (replaceBaulkUpdate f s).2.location execFile = s.location execFile ∧
      (replaceBaulkUpdate f s).2.moved = s.moved := by
  by_cases haside : s.location updateFile ≠ none ∧ f.updateDiscard = false
  · obtain ⟨s', -, hmoved, -, hexec, heq⟩ := replaceBaulkUpdate_aside haside
    have hne : execFile ≠ updateFile := by decide
    rw [heq, renameIn_of_ne hne, renameIn_moved]
    exact ⟨hexec, hmoved⟩
  · rw [replaceBaulkUpdate_failed haside]
    exact ⟨rfl, rfl⟩

theorem replaceBaulkFiles_pos (h : (replaceBaulkExec f s).1 = true) :
    replaceBaulkFiles f s = replaceBaulkUpdate f (replaceBaulkExec f s).2 := by
  unfold replaceBaulkFiles
  simp only [h, if_true]

theorem replaceBaulkFiles_neg (h : ¬ (replaceBaulkExec f s).1 = true) :
    replaceBaulkFiles f s = replaceBaulkExec f s := by
  unfold replaceBaulkFiles
  simp only [h]
  rfl

end Programs

/-! ## The whole update -/

section Update

variable {f : Failures} {r : Release} {location : Files}

/-- The installation before the programs are replaced. -/
def applied (f : Failures) (r : Release) (location : Files) : Install :=
  (applyBaulkFiles f r location).2

theorem applied_filtered {q : List WString} (h : fileFilter q = true) :
    (applied f r location).source q = r.tree q ∧
      (applied f r location).location q = location q :=
  applyFiles_filtered h

theorem applied_moved {q : List WString} (hmem : q ∈ r.files.map Prod.fst)
    (hfilter : fileFilter q = false) :
    q ∈ (applied f r location).moved ↔ Moves f q := by
  obtain ⟨content, hcontent⟩ := tree_ne_none hmem
  exact (applyFiles_moved r.nodup hmem hfilter hcontent List.not_mem_nil).1

theorem execAside_applied :
    ExecAside f (applied f r location) ↔
      location execFile ≠ none ∧ f.execDiscard = false := by
  unfold ExecAside
  rw [(applied_filtered (q := execFile) rfl).2]

theorem replaceBaulkExec_applied :
    (replaceBaulkExec f (applied f r location)).1 = true ↔
      ExecReplaced f location r := by
  unfold ExecReplaced
  rw [replaceBaulkExec_iff, execAside_applied, (applied_filtered rfl).1, and_assoc]

theorem execute_extracted :
    execute f (.extracted r) location =
      replaceBaulkFiles f (applied f r location) := rfl

theorem execute_exec :
    (execute f (.extracted r) location).2.location execFile =
      (replaceBaulkExec f (applied f r location)).2.location execFile := by
  rw [execute_extracted]
  by_cases hexec : (replaceBaulkExec f (applied f r location)).1 = true
  · rw [replaceBaulkFiles_pos hexec]
    exact replaceBaulkUpdate_exec.1
  · rw [replaceBaulkFiles_neg hexec]

theorem execute_moved :
    (execute f (.extracted r) location).2.moved = (applied f r location).moved := by
  rw [execute_extracted]
  by_cases hexec : (replaceBaulkExec f (applied f r location)).1 = true
  · rw [replaceBaulkFiles_pos hexec]
    exact replaceBaulkUpdate_exec.2.trans replaceBaulkExec_update.2.2
  · rw [replaceBaulkFiles_neg hexec]
    exact replaceBaulkExec_update.2.2

/-- The old or the new `baulk-exec.exe` is there. -/
theorem execute_exec_iff :
    StillThere location r.tree (execute f (.extracted r) location).2.location
        execFile ↔
      ¬ (location execFile ≠ none ∧ f.execDiscard = false ∧
        (r.tree execFile = none ∨ f.execFirst = true ∧ f.execSecond = true)) := by
  have hsource : (applied f r location).source execFile = r.tree execFile :=
    (applied_filtered rfl).1
  have hlocation : (applied f r location).location execFile = location execFile :=
    (applied_filtered rfl).2
  obtain ⟨hplaced, hbeside⟩ :=
    replaceBaulkExec_exec (f := f) (s := applied f r location)
  unfold StillThere
  rw [execute_exec]
  by_cases h : ExecPlaced f (applied f r location)
  · rw [hplaced h, hsource]
    have hnew : r.tree execFile ≠ none := hsource ▸ h.1
    refine iff_of_true (fun _ => ⟨hnew, .inr rfl⟩) ?_
    rintro ⟨-, -, hnone | ⟨hfirst, hsecond⟩⟩
    · exact hnew hnone
    · rcases h.2 with h | h
      · exact Bool.false_ne_true (h.2.symm.trans hfirst)
      · exact Bool.false_ne_true (h.symm.trans hsecond)
  · rw [hbeside h]
    by_cases haside : ExecAside f (applied f r location)
    · rw [execAsideState_exec haside]
      have hthere := execAside_applied.mp haside
      refine iff_of_false (fun hstill => (hstill hthere.1).1 rfl) fun hsafe => ?_
      refine hsafe ⟨hthere.1, hthere.2, ?_⟩
      by_cases hnone : r.tree execFile = none
      · exact .inl hnone
      · refine .inr ⟨?_, ?_⟩
        · by_contra hfirst
          exact h ⟨hsource ▸ hnone, .inl ⟨haside, Bool.eq_false_of_not_eq_true hfirst⟩⟩
        · by_contra hsecond
          exact h ⟨hsource ▸ hnone, .inr (Bool.eq_false_of_not_eq_true hsecond)⟩
    · rw [execAsideState_failed haside, hlocation]
      refine iff_of_true (fun hthere => ⟨hthere, .inl rfl⟩) fun hbad => ?_
      exact haside (execAside_applied.mpr ⟨hbad.1, hbad.2.1⟩)

/-- The old or the new `baulk-update.exe` is there. -/
theorem execute_update_iff :
    StillThere location r.tree (execute f (.extracted r) location).2.location
        updateFile ↔
      (ExecReplaced f location r →
        ¬ (location updateFile ≠ none ∧ f.updateDiscard = false ∧
          (r.tree updateFile = none ∨ f.updateNew = true))) := by
  have hsource : (applied f r location).source updateFile = r.tree updateFile :=
    (applied_filtered rfl).1
  have hlocation : (applied f r location).location updateFile = location updateFile :=
    (applied_filtered rfl).2
  obtain ⟨hkept, hkeptSource, -⟩ :=
    replaceBaulkExec_update (f := f) (s := applied f r location)
  rw [hlocation] at hkept
  rw [hsource] at hkeptSource
  unfold StillThere
  rw [← replaceBaulkExec_applied, execute_extracted]
  by_cases hexec : (replaceBaulkExec f (applied f r location)).1 = true
  · rw [replaceBaulkFiles_pos hexec, hexec, eq_self, true_implies]
    by_cases haside : location updateFile ≠ none ∧ f.updateDiscard = false
    · rw [replaceBaulkUpdate_update (hkept ▸ haside), hkeptSource]
      by_cases hlost : r.tree updateFile = none ∨ f.updateNew = true
      · refine iff_of_false (fun hstill => ?_) fun hsafe =>
          hsafe ⟨haside.1, haside.2, hlost⟩
        refine (hstill haside.1).1 ?_
        rcases hlost with hlost | hlost
        · rw [hlost, ite_self]
        · rw [hlost, if_pos rfl]
      · rw [not_or, Bool.not_eq_true] at hlost
        rw [hlost.2, if_neg Bool.false_ne_true]
        refine iff_of_true (fun _ => ⟨hlost.1, .inr rfl⟩) fun hbad => ?_
        rcases hbad.2.2 with hnone | hfails
        · exact hlost.1 hnone
        · exact Bool.false_ne_true hfails
    · rw [replaceBaulkUpdate_failed (hkept ▸ haside), hkept]
      refine iff_of_true (fun hthere => ⟨hthere, .inl rfl⟩) fun hbad => ?_
      exact haside ⟨hbad.1, hbad.2.1⟩
  · rw [replaceBaulkFiles_neg hexec, hkept]
    refine iff_of_true (fun hthere => ⟨hthere, .inl rfl⟩) fun hreplaced => ?_
    exact absurd hreplaced hexec

theorem execute_true_iff :
    (execute f (.extracted r) location).1 = true ↔
      ExecReplaced f location r ∧
        (location updateFile ≠ none ∧ f.updateDiscard = false) ∧
        r.tree updateFile ≠ none ∧ f.updateNew = false := by
  obtain ⟨hkept, hkeptSource, -⟩ :=
    replaceBaulkExec_update (f := f) (s := applied f r location)
  rw [(applied_filtered rfl).2] at hkept
  rw [(applied_filtered rfl).1] at hkeptSource
  rw [← replaceBaulkExec_applied, execute_extracted]
  by_cases hexec : (replaceBaulkExec f (applied f r location)).1 = true
  · rw [replaceBaulkFiles_pos hexec, replaceBaulkUpdate_iff, hkept, hkeptSource,
      hexec, eq_self, true_and]
  · rw [replaceBaulkFiles_neg hexec]
    exact iff_of_false hexec fun h => hexec h.1

/-- The update leaves no hole and returns true only for a complete release
exactly if none of the three failures come together. -/
theorem execute_sound_iff (f : Failures) (r : Release) (location : Files) :
    Sound r location (execute f (.extracted r) location) ↔
      UpdateSafe f location r := by
  have hverdict : ((execute f (.extracted r) location).1 = true →
      ∀ p ∈ r.files.map Prod.fst, fileFilter p = false →
        p ∈ (execute f (.extracted r) location).2.moved) ↔
      (ExecReplaced f location r → location updateFile ≠ none →
        f.updateDiscard = false → r.tree updateFile ≠ none → f.updateNew = false →
        ∀ p ∈ r.files.map Prod.fst, fileFilter p = false → Moves f p) := by
    rw [execute_true_iff, execute_moved]
    constructor
    · intro h hexec hthere haside hnew hmoves p hmem hfilter
      exact (applied_moved hmem hfilter).mp
        (h ⟨hexec, ⟨hthere, haside⟩, hnew, hmoves⟩ p hmem hfilter)
    · rintro h ⟨hexec, ⟨hthere, haside⟩, hnew, hmoves⟩ p hmem hfilter
      exact (applied_moved hmem hfilter).mpr
        (h hexec hthere haside hnew hmoves p hmem hfilter)
  constructor
  · rintro ⟨hexec, hupdate, hmoved⟩
    exact ⟨execute_exec_iff.mp hexec, execute_update_iff.mp hupdate,
      hverdict.mp hmoved⟩
  · rintro ⟨hexec, hupdate, hmoved⟩
    exact ⟨execute_exec_iff.mpr hexec, execute_update_iff.mpr hupdate,
      hverdict.mpr hmoved⟩

theorem execute_unchanged {fetched : Fetched} (h : ∀ r, fetched ≠ .extracted r) :
    (execute f fetched location).2.location = location := by
  cases fetched with
  | current => rfl
  | failed => rfl
  | extracted r => exact absurd rfl (h r)

/-- When the new `baulk-update.exe` cannot be moved, there is none. -/
theorem execute_update_lost :
    ¬ ∀ (f : Failures) (r : Release) (location : Files),
      Sound r location (execute f (.extracted r) location) := by
  intro h
  let r : Release :=
    { files := [(execFile, [2]), (updateFile, [2])], nodup := by decide }
  have hsafe := execute_update_iff.mp
    (h { updateNew := true } r fun _ => some [1]).update
  have hthere : (some [1] : Option Bytes) ≠ none := by decide
  have hnew : r.tree execFile ≠ none := by decide
  exact hsafe ⟨hnew, .inl ⟨hthere, rfl, rfl⟩⟩ ⟨hthere, rfl, .inr rfl⟩

end Update

end Baulk.SelfUpdate
