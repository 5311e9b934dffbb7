import Baulk.Archive.Extraction
import Baulk.Fs.Flattened

/-!
# What an extraction leaves

An extraction puts folders, files and links below its destination.  What was
there before stays, unless it is in the way.
-/

namespace Baulk.Archive

open Fs Support

/-- What is not a folder. -/
inductive Leaf where
  | data (content : Bytes)
  | link (source : WString)
  deriving DecidableEq

/-! ## The log as a description of the destination -/

/-- The names that lead from the destination to a path below it. -/
def namesBelow (destination path : WinPath) : List FileName :=
  if WinPath.StrictlyBelow destination path then
    (path.normalParts.drop destination.normalParts.length).map FileName.ofText
  else []

/-- The destination while it is written, and the file that is open. -/
structure Writing where
  folder : Directory Leaf
  current : Option (List FileName × Bytes) := none

/-- What a call that works does to the destination. -/
def Writing.apply (destination : WinPath) (w : Writing) : Action → Writing
  | .makeDirectories path _ =>
      { w with folder := w.folder.mkdirs (namesBelow destination path) }
  | .newSymlink path source _ =>
      { w with
        folder := w.folder.put (namesBelow destination path) (.link source) }
  | .newFile path _ _ =>
      { folder := w.folder.put (namesBelow destination path) (.data [])
        current := some (namesBelow destination path, []) }
  | .write chunk =>
      match w.current with
      | some (path, content) =>
          { folder := w.folder.put path (.data (content ++ chunk))
            current := some (path, content ++ chunk) }
      | none => w
  | _ => w

/-- The destination after an extraction without failures, if it held `folder`
before. -/
def contents (destination : WinPath) (log : Log) (folder : Directory Leaf) :
    Directory Leaf :=
  (log.foldl (Writing.apply destination) { folder }).folder

/-- Where one path leads, the other one passes. -/
def Comparable (q path : List FileName) : Prop :=
  q <+: path ∨ path <+: q

/-- The call determines what a path leads to. -/
def Action.Determines (destination : WinPath) (q : List FileName) :
    Action → Prop
  | makeDirectories path _ => q <+: namesBelow destination path
  | newSymlink path _ _ =>
      namesBelow destination path ≠ [] ∧
        Comparable q (namesBelow destination path)
  | newFile path _ _ =>
      namesBelow destination path ≠ [] ∧
        Comparable q (namesBelow destination path)
  | _ => False

/-- Some call of the log determines what a path leads to. -/
def Log.Determines (destination : WinPath) (log : Log) (q : List FileName) :
    Prop :=
  ∃ action ∈ log, action.Determines destination q

/-- The second folder is what was determined, over an empty folder, and the first
one over another folder. -/
structure Overlay (determined : List FileName → Prop)
    (under first second : Directory Leaf) : Prop where
  inside : ∀ q, determined q → first.lookup q = second.lookup q
  outside : ∀ q, ¬ determined q → first.lookup q = under.lookup q ∧
    second.lookup q = (Folder.nil : Directory Leaf).lookup q

section Overlaying

variable {determined : List FileName → Prop}
  {under first second : Directory Leaf}

theorem Overlay.congr {determined' : List FileName → Prop}
    (h : Overlay determined under first second)
    (hiff : ∀ q, determined' q ↔ determined q) :
    Overlay determined' under first second where
  inside q hq := h.inside q ((hiff q).mp hq)
  outside q hq := h.outside q fun hq' => hq ((hiff q).mpr hq')

theorem Overlay.mkdirs (h : Overlay determined under first second)
    (path : List FileName) :
    Overlay (fun q => determined q ∨ q <+: path) under (first.mkdirs path)
      (second.mkdirs path) where
  inside q hq := by
    by_cases hpath : q <+: path
    · rw [Folder.lookup_mkdirs hpath, Folder.lookup_mkdirs hpath]
    · rw [Folder.lookup_mkdirs_of_not hpath, Folder.lookup_mkdirs_of_not hpath]
      exact h.inside q (hq.resolve_right hpath)
  outside q hq := by
    rw [not_or] at hq
    rw [Folder.lookup_mkdirs_of_not hq.2, Folder.lookup_mkdirs_of_not hq.2]
    exact h.outside q hq.1

theorem Overlay.put (h : Overlay determined under first second)
    (path : List FileName) (leaf : Leaf) :
    Overlay (fun q => determined q ∨ path ≠ [] ∧ Comparable q path) under
      (first.put path leaf) (second.put path leaf) where
  inside q hq := by
    by_cases hpath : path ≠ [] ∧ Comparable q path
    · exact Folder.lookup_put_congr hpath.2 hpath.1 leaf first second
    · have hdetermined := hq.resolve_right hpath
      by_cases hnil : path = []
      · rw [hnil]
        exact h.inside q hdetermined
      · have hnot : ¬ Comparable q path := fun hc => hpath ⟨hnil, hc⟩
        rw [Folder.lookup_put_of_not hnot, Folder.lookup_put_of_not hnot]
        exact h.inside q hdetermined
  outside q hq := by
    rw [not_or] at hq
    by_cases hnil : path = []
    · rw [hnil]
      exact h.outside q hq.1
    · have hnot : ¬ Comparable q path := fun hc => hq.2 ⟨hnil, hc⟩
      rw [Folder.lookup_put_of_not hnot, Folder.lookup_put_of_not hnot]
      exact h.outside q hq.1

end Overlaying

/-- Two states of a destination under the same calls. -/
structure SameCalls (determined : List FileName → Prop)
    (under : Directory Leaf) (first second : Writing) : Prop where
  overlay : Overlay determined under first.folder second.folder
  current : first.current = second.current
  opened : ∀ path content, first.current = some (path, content) →
    path ≠ [] → ∀ q, Comparable q path → determined q

theorem SameCalls.mono {determined determined' : List FileName → Prop}
    {under : Directory Leaf} {first second : Writing}
    (h : SameCalls determined under first second)
    (hiff : ∀ q, determined' q ↔ determined q) :
    SameCalls determined' under first second where
  overlay := h.overlay.congr hiff
  current := h.current
  opened path content hc hp q hq :=
    (hiff q).mpr (h.opened path content hc hp q hq)

theorem SameCalls.write {determined : List FileName → Prop}
    {under : Directory Leaf} {first second : Writing}
    (h : SameCalls determined under first second) (destination : WinPath)
    (chunk : Bytes) :
    SameCalls determined under (first.apply destination (.write chunk))
      (second.apply destination (.write chunk)) := by
  unfold Writing.apply
  dsimp only
  rw [← h.current]
  rcases hcurrent : first.current with _ | ⟨path, content⟩
  · exact h
  · refine ⟨(h.overlay.put path (.data (content ++ chunk))).congr fun q => ?_,
      rfl, ?_⟩
    · refine ⟨.inl, fun hq => hq.elim id fun hq => ?_⟩
      exact h.opened path content hcurrent hq.1 q hq.2
    · rintro _ _ ⟨⟩ hpath q hq
      exact h.opened path content hcurrent hpath q hq

theorem SameCalls.apply {determined : List FileName → Prop}
    {under : Directory Leaf} {first second : Writing}
    (h : SameCalls determined under first second) (destination : WinPath)
    (action : Action) :
    SameCalls (fun q => determined q ∨ action.Determines destination q) under
      (first.apply destination action) (second.apply destination action) := by
  have hopened : ∀ path content, first.current = some (path, content) →
      path ≠ [] → ∀ q, Comparable q path →
        determined q ∨ action.Determines destination q :=
    fun path content hc hp q hq => .inl (h.opened path content hc hp q hq)
  have hnothing : ∀ q, (determined q ∨ False) ↔ determined q :=
    fun q => or_iff_left id
  cases action with
  | entry index => exact h.mono hnothing
  | createDirectories path => exact h.mono hnothing
  | report bytes => exact h.mono hnothing
  | discard => exact h.mono hnothing
  | write chunk => exact (h.write destination chunk).mono hnothing
  | makeDirectories path modified =>
      exact ⟨h.overlay.mkdirs _, h.current, hopened⟩
  | newSymlink path source overwrite =>
      exact ⟨h.overlay.put _ _, h.current, hopened⟩
  | newFile path modified overwrite =>
      refine ⟨h.overlay.put _ _, rfl, ?_⟩
      rintro _ _ ⟨⟩ hpath q hq
      exact .inr ⟨hpath, hq⟩

theorem SameCalls.foldl {determined : List FileName → Prop}
    {under : Directory Leaf} {first second : Writing}
    (h : SameCalls determined under first second) (destination : WinPath)
    (log : Log) :
    SameCalls (fun q => determined q ∨ Log.Determines destination log q) under
      (log.foldl (Writing.apply destination) first)
      (log.foldl (Writing.apply destination) second) := by
  induction log generalizing determined first second with
  | nil => exact h.mono fun q => or_iff_left (by simp [Log.Determines])
  | cons action log ih =>
      refine (ih (h.apply destination action)).mono fun q => ?_
      simp [Log.Determines, or_assoc]

end Baulk.Archive
