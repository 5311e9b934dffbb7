import Baulk.Archive.Sanitize
import Baulk.Core.ErrorCode

/-!
# Symbolic links of an archive

Both extractors pass a link entry through the same function: the stored link
name is decoded, resolved against the directory of the new link, made relative
to the destination, and refused when the relative path contains `..\`.  This
module models that function and determines which links it handles properly.
-/

namespace Baulk.Archive

open WinPath (AtOrBelow SameRoot CurrentDirs)

/-- What the file system contributes to one call: the current directories, and
the failures of `fs::absolute` and `fs::relative`. -/
structure SymlinkSystem where
  dirs : CurrentDirs
  absoluteError : Option SystemError := none
  relativeError : Option SystemError := none

/-- The outcome of `create_symlink`, with the calls of `NewSymlink` it made:
the path of the link and its target. -/
structure SymlinkOutcome where
  ok : Bool
  ec : ErrorCode
  calls : List (WinPath × WString)

/-- Where a link points: its name resolved lexically against the directory of
the link.  This is `linkPath` in `create_symlink`. -/
def linkTarget (decode : Bytes → WString) (sys : SymlinkSystem)
    (link : WinPath) (linkname : Bytes) : WinPath :=
  WinPath.absolute sys.dirs
    (link.parentPath.append (WinPath.ofText (decode linkname)))

/-- `create_symlink`.  `decode` is `EncodeToNativePath` for the encoding of the
entry and `newSymlink` the effect of `NewSymlink`. -/
def createSymlink (decode : Bytes → WString) (sys : SymlinkSystem)
    (newSymlink : WinPath → WString → Bool × ErrorCode)
    (destination link : WinPath) (linkname : Bytes) : SymlinkOutcome :=
  let nativeLinkName := decode linkname
  let linkPath := linkTarget decode sys link linkname
  match sys.absoluteError with
  | some e => ⟨false, e.toErrorCode (wide "absolute() "), []⟩
  | none =>
      match sys.relativeError with
      | some e => ⟨false, e.toErrorCode (wide "relative() "), []⟩
      | none =>
          if strContains (WinPath.relativeText linkPath destination)
              (wide "..\\") then
            ⟨false, ErrorCode.make ErrorCode.errGeneral
              (wide "harmful path <s>: " ++ nativeLinkName), []⟩
          else
            let made := newSymlink link nativeLinkName
            ⟨made.1, made.2, [(link, nativeLinkName)]⟩

/-- `zip::Extractor::create_symlink`: the encoding follows the entry's UTF-8
flag. -/
def zipCreateSymlink (encodeToNativePath : Bool → Bytes → WString)
    (alwaysUtf8 : Bool) :=
  createSymlink (encodeToNativePath alwaysUtf8)

/-- `tar::Extractor::create_symlink`: link names are always UTF-8. -/
def tarCreateSymlink (encodeToNativePath : Bool → Bytes → WString) :=
  createSymlink (encodeToNativePath true)

/-- The contract of `create_symlink` for a link that points to `target`:
`NewSymlink` is called only for targets at or below the destination, and every
other link is refused with an error. -/
def SymlinkContract (destination target : WinPath) (r : SymlinkOutcome) :
    Prop :=
  (r.calls ≠ [] → AtOrBelow destination target) ∧
    (¬AtOrBelow destination target → r.ok = false ∧ r.ec.isError = true)

/-- `p` is the directory that holds `root`. -/
def IsParentOf (root p : WinPath) : Prop :=
  ∃ name, root.normalParts = p.normalParts ++ [name]

/-! ## The substring test -/

theorem dotdot_infix_of_two_parts (a : WString) (parts : List WString) :
    wide "..\\" <:+: WinPath.joinParts (dotdotName :: a :: parts) := by
  refine ⟨[], WinPath.joinParts (a :: parts), ?_⟩
  simp [WinPath.joinParts, List.intercalate, dotdotName, wide]

theorem isAbsolute_of_sameRoot {destination target : WinPath}
    (hsame : SameRoot destination target)
    (habs : destination.isAbsolute = true) : target.isAbsolute = true := by
  obtain ⟨hname, hdir⟩ := hsame
  rw [WinPath.isAbsolute] at habs ⊢
  rw [hname]
  split at habs
  · rename_i htwo
    rw [if_pos htwo]
    exact hdir habs
  · rename_i htwo
    rw [if_neg htwo]
    exact habs

/-- An absolute path that other paths can be outside of has a root directory. -/
theorem rootDir_of_outside {destination target : WinPath}
    (hsame : SameRoot destination target)
    (habs : destination.isAbsolute = true)
    (hout : ¬AtOrBelow destination target) : destination.rootDir = true := by
  by_contra hno
  rw [Bool.not_eq_true] at hno
  have hnotDrive : destination.rootName.length ≠ 2 := by
    intro htwo
    rw [WinPath.isAbsolute, if_pos htwo, hno] at habs
    contradiction
  have hname : destination.rootName ≠ [] := by
    intro hnil
    simp [WinPath.isAbsolute, hnil] at habs
  have hparts := destination.root_valid hno hname hnotDrive
  apply hout
  refine ⟨hsame, ?_⟩
  simp [WinPath.normalParts, hparts]

/-- For a target on the destination's root but outside it, the relative path
contains `..\` unless the target is the parent directory itself. -/
theorem strContains_relativeText_of_outside {destination target : WinPath}
    (hsame : SameRoot destination target)
    (habs : destination.isAbsolute = true)
    (hout : ¬AtOrBelow destination target) :
    strContains (WinPath.relativeText target destination) (wide "..\\") = true ↔
      ¬IsParentOf destination target := by
  have hdir := rootDir_of_outside hsame habs hout
  have htargetDir := hsame.2 hdir
  have htargetAbs := isAbsolute_of_sameRoot hsame habs
  have hup : (Support.mismatch target.normalParts
      destination.normalParts).2 ≠ [] := by
    intro h
    exact hout ⟨hsame, Support.mismatch_snd_eq_nil_iff.mp h⟩
  rw [WinPath.relativeText, if_neg (by simp [hsame.1, habs, htargetAbs, htargetDir]),
    if_neg (by simp [hdir])]
  by_cases hparent : IsParentOf destination target
  · obtain ⟨name, hname⟩ := hparent
    have htext : strContains (WinPath.joinParts [dotdotName])
        (wide "..\\") = false := by decide
    have hparent : IsParentOf destination target := ⟨name, hname⟩
    rw [hname, Support.mismatch_append_right]
    simpa [hparent] using htext
  · simp only [hparent, not_false_eq_true, iff_true]
    apply strContains_iff.mpr
    obtain ⟨common, htarget, hdest⟩ := Support.exists_common_mismatch
      target.normalParts destination.normalParts
    generalize Support.mismatch target.normalParts destination.normalParts = m
      at hup htarget hdest ⊢
    match m with
    | (_, []) => exact absurd rfl hup
    | ([], [name]) =>
        exact absurd ⟨name, by rw [hdest, htarget, List.append_nil]⟩ hparent
    | ([], n₁ :: n₂ :: names) => exact dotdot_infix_of_two_parts _ _
    | (d :: down, n₁ :: names) =>
        cases names with
        | nil => exact dotdot_infix_of_two_parts d down
        | cons n₂ names => exact dotdot_infix_of_two_parts _ _

/-- Paths without a common root have no relative path between them, so the
test finds nothing to object to. -/
theorem strContains_relativeText_of_not_sameRoot {destination target : WinPath}
    (hroot : ¬SameRoot destination target) :
    strContains (WinPath.relativeText target destination) (wide "..\\") =
      false := by
  have hempty : WinPath.relativeText target destination = [] := by
    rw [WinPath.relativeText, if_pos]
    by_cases hname : target.rootName = destination.rootName
    · right
      right
      have hdir : ¬(destination.rootDir = true → target.rootDir = true) :=
        fun h => hroot ⟨hname, h⟩
      rw [Classical.not_imp, Bool.not_eq_true] at hdir
      exact ⟨hdir.2, hdir.1⟩
    · exact Or.inl hname
  rw [hempty]
  decide

/-! ## The contract -/

theorem not_atOrBelow_of_isParentOf {destination target : WinPath}
    (hparent : IsParentOf destination target) :
    ¬AtOrBelow destination target := by
  obtain ⟨name, hname⟩ := hparent
  rintro ⟨-, hprefix⟩
  have hlen := hprefix.length_le
  rw [hname, List.length_append, List.length_singleton] at hlen
  omega

/-- The substring test catches every target outside the destination, except
one on another root and the destination's parent directory. -/
theorem strContains_relativeText_iff_of_outside (destination : WinPath.Absolute)
    {target : WinPath} (hout : ¬AtOrBelow destination target) :
    strContains (WinPath.relativeText target destination) (wide "..\\") = true ↔
      SameRoot destination target ∧ ¬IsParentOf destination target := by
  by_cases hsame : SameRoot destination.1 target
  · rw [strContains_relativeText_of_outside hsame destination.2 hout]
    simp [hsame]
  · simp [strContains_relativeText_of_not_sameRoot hsame, hsame]

/-- `create_symlink` keeps its contract exactly when the path computation
fails, or the target is on the destination's root and is not the destination's
parent directory. -/
theorem createSymlink_contract_iff (decode : Bytes → WString)
    (sys : SymlinkSystem) (newSymlink : WinPath → WString → Bool × ErrorCode)
    (destination : WinPath.Absolute) (link : WinPath) (linkname : Bytes) :
    SymlinkContract destination (linkTarget decode sys link linkname)
        (createSymlink decode sys newSymlink destination link linkname) ↔
      sys.absoluteError ≠ none ∨ sys.relativeError ≠ none ∨
        (SameRoot destination (linkTarget decode sys link linkname) ∧
          ¬IsParentOf destination (linkTarget decode sys link linkname)) := by
  rw [createSymlink]
  set target := linkTarget decode sys link linkname
  cases habs : sys.absoluteError with
  | some e =>
      simp [SymlinkContract, SystemError.toErrorCode_isError]
  | none =>
      cases hrel : sys.relativeError with
      | some e =>
          simp [SymlinkContract, SystemError.toErrorCode_isError]
      | none =>
          simp only [ne_eq, not_true_eq_false, false_or]
          by_cases hin : AtOrBelow destination.1 target
          · have hparent : ¬IsParentOf destination.1 target :=
              fun h => not_atOrBelow_of_isParentOf h hin
            simp only [SymlinkContract, hin, hin.1, hparent, implies_true,
              not_true_eq_false, false_implies, and_self, not_false_eq_true]
          · rw [← strContains_relativeText_iff_of_outside destination hin]
            split
            · rename_i hfound
              simp [SymlinkContract, hin, hfound, ErrorCode.isError,
                ErrorCode.make, ErrorCode.errGeneral, ErrorCode.errNone]
            · rename_i hmissed
              simp [SymlinkContract, hin, hmissed]

/-- Both extractors keep the contract for exactly the same links, each with its
own decoding of the link name. -/
theorem extractors_createSymlink_contract_iff
    (encodeToNativePath : Bool → Bytes → WString) (alwaysUtf8 : Bool)
    (sys : SymlinkSystem) (newSymlink : WinPath → WString → Bool × ErrorCode)
    (destination : WinPath.Absolute) (link : WinPath) (linkname : Bytes) :
    (SymlinkContract destination
        (linkTarget (encodeToNativePath alwaysUtf8) sys link linkname)
        (zipCreateSymlink encodeToNativePath alwaysUtf8 sys newSymlink
          destination link linkname) ↔
      sys.absoluteError ≠ none ∨ sys.relativeError ≠ none ∨
        (SameRoot destination
            (linkTarget (encodeToNativePath alwaysUtf8) sys link linkname) ∧
          ¬IsParentOf destination
            (linkTarget (encodeToNativePath alwaysUtf8) sys link linkname))) ∧
    (SymlinkContract destination
        (linkTarget (encodeToNativePath true) sys link linkname)
        (tarCreateSymlink encodeToNativePath sys newSymlink
          destination link linkname) ↔
      sys.absoluteError ≠ none ∨ sys.relativeError ≠ none ∨
        (SameRoot destination
            (linkTarget (encodeToNativePath true) sys link linkname) ∧
          ¬IsParentOf destination
            (linkTarget (encodeToNativePath true) sys link linkname))) :=
  ⟨createSymlink_contract_iff _ sys newSymlink destination link linkname,
    createSymlink_contract_iff _ sys newSymlink destination link linkname⟩

/-- A link `C:\dest\a` whose stored name is `D:\evil` is created: the relative
path from `C:\dest` to another drive is empty. -/
theorem tarCreateSymlink_follows_other_drive :
    ¬∀ (encodeToNativePath : Bool → Bytes → WString) (sys : SymlinkSystem)
        (newSymlink : WinPath → WString → Bool × ErrorCode)
        (destination : WinPath.Absolute) (link : WinPath) (linkname : Bytes),
      SymlinkContract destination
        (linkTarget (encodeToNativePath true) sys link linkname)
        (tarCreateSymlink encodeToNativePath sys newSymlink
          destination link linkname) := by
  intro hall
  have hcontract := hall (fun _ bytes => bytes.map UInt8.toUInt16)
    ⟨⟨WinPath.ofText (wide "C:\\"), fun _ => WinPath.ofText []⟩, none, none⟩
    (fun _ _ => (true, {}))
    ⟨WinPath.ofText (wide "C:\\dest"), by decide⟩
    (WinPath.ofText (wide "C:\\dest\\a")) (narrow "D:\\evil")
  have hbelow := hcontract.1 (by
    simp only [tarCreateSymlink, createSymlink]
    rw [if_neg (by decide)]
    simp)
  revert hbelow
  decide

end Baulk.Archive
