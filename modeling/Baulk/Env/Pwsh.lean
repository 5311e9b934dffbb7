import Baulk.Core.Numbers
import Baulk.Support.Champion

/-!
# Versions of PowerShell

`PwshCore` keeps the newest of the version directories by a comparison that subtracts, and
`PwshCorePreview` takes the first preview that it meets.  Whatever the order in which the
directories are found, both give the best one if and only if the versions lie less than
`2 ^ 31` apart, there is at most one preview, and the best version is spelled by one name.
-/

namespace Baulk.Env

open Numbers (IsNumeral simpleAtoi32 simpleAtoi32_of_isNumeral)
open Support (champion champion_append_of_none champion_eq_none_iff champion_greatest
  champion_map mem_of_champion StrictTotalOn)

/-! ## The functions -/

inductive Prerelease where
  | alpha
  | beta
  | rc
  | none
  deriving DecidableEq

def Prerelease.value : Prerelease → Int
  | alpha => 0
  | beta => 1
  | rc => 2
  | none => 3

structure PwshMeta where
  path : WString
  version : Int
  preview : Prerelease

namespace PwshMeta

/-- `compare`.  The difference of two versions is a number of 32 bits. -/
def compare (self other : PwshMeta) : Int :=
  if self.version ≠ other.version then (self.version - other.version).bmod (2 ^ 32)
  else if self.preview ≠ other.preview then self.preview.value - other.preview.value
  else 0

end PwshMeta

/-- The loop of `PwshNewest`, where `newest` is the element at `pos`. -/
def newestLoop (newest : PwshMeta) : List PwshMeta → PwshMeta
  | [] => newest
  | p :: pwshs => newestLoop (if 0 < p.compare newest then p else newest) pwshs

def pwshNewest : List PwshMeta → WString
  | [] => []
  | p :: pwshs => (newestLoop p pwshs).path

def pwshPreview (pwshs : List PwshMeta) : WString :=
  match pwshs.find? fun p => p.preview == .rc with
  | some p => p.path
  | none => []

/-- What `directory_iterator` finds: the name of a directory, and whether there is a
`pwsh.exe` in it. -/
structure PwshEntry where
  name : WString
  hasExe : Bool

/-- The folder of PowerShell after `WindowsExpandEnv`, and whether it exists.  `entries` is
empty if it cannot be read. -/
structure PwshFolder where
  path : WString
  found : Bool
  entries : List PwshEntry

/-- `exe.wstring()`. -/
def exePath (pwshdir name : WString) : WString :=
  pwshdir ++ wide "\\" ++ name ++ wide "\\pwsh.exe"

/-- The version and the kind that a name is taken for. -/
def parseName (name : WString) : Option (Int × Prerelease) :=
  let preview := endsWithIgnoreCase name (wide "-preview")
  let sv := if preview then name.take (name.length - (wide "-preview").length) else name
  match simpleAtoi32 sv with
  | (version, true) => some (version, if preview then .rc else .none)
  | (_, false) => none

/-- `AccumulatePwsh`: the elements that it adds, none if the folder does not exist. -/
def accumulatePwsh (folder : PwshFolder) : List PwshMeta :=
  if folder.found then
    folder.entries.filterMap fun it =>
      if it.hasExe then
        (parseName it.name).map fun parsed => ⟨exePath folder.path it.name, parsed.1, parsed.2⟩
      else none
  else []

def pwshCore (folder : PwshFolder) : WString :=
  let pwshs := accumulatePwsh folder
  if pwshs.isEmpty then [] else pwshNewest pwshs

def pwshCorePreview (folder : PwshFolder) : WString :=
  let pwshs := accumulatePwsh folder
  if pwshs.isEmpty then [] else pwshPreview pwshs

/-! ## Version directories -/

/-- A directory that is named by an `int`, and by `-preview` if it holds a preview. -/
structure VersionDir where
  numeral : WString
  version : Int
  preview : Bool
  isNumeral : IsNumeral numeral version
  fits : -2 ^ 31 ≤ version ∧ version ≤ 2 ^ 31 - 1

namespace VersionDir

def name (d : VersionDir) : WString :=
  d.numeral ++ if d.preview then wide "-preview" else []

/-- The version, and a release above a preview. -/
def rank (d : VersionDir) : Int × Int :=
  (d.version, if d.preview then 2 else 3)

end VersionDir

/-- A folder in which the directories are found one after the other. -/
def folderOf (path : WString) (dirs : List VersionDir) : PwshFolder where
  path
  found := true
  entries := dirs.map fun d => ⟨d.name, true⟩

/-- The first pair is at most the second one: by the versions, then by the kinds. -/
def AtMost (r s : Int × Int) : Prop :=
  r.1 < s.1 ∨ r.1 = s.1 ∧ r.2 ≤ s.2

/-- `best` is the executable of the best directory, empty if there is none. -/
def IsBest (path : WString) (dirs : List VersionDir) (best : WString) : Prop :=
  (dirs = [] ∧ best = []) ∨ ∃ d ∈ dirs, best = exePath path d.name ∧
    ∀ d' ∈ dirs, AtMost d'.rank d.rank

/-- Whatever the order of the directories, both selections give the same, the best one of
all and the best preview. -/
def SelectsBest (path : WString) (dirs : List VersionDir) : Prop :=
  ∃ newest preview, IsBest path dirs newest ∧
    IsBest path (dirs.filter VersionDir.preview) preview ∧
      ∀ order : List VersionDir, order.Perm dirs →
        pwshCore (folderOf path order) = newest ∧
          pwshCorePreview (folderOf path order) = preview

/-- A directory that is at least as good as all others. -/
def Best (dirs : List VersionDir) (d : VersionDir) : Prop :=
  d ∈ dirs ∧ ∀ d' ∈ dirs, AtMost d'.rank d.rank

/-- When the order does not matter: versions are less than `2 ^ 31` apart, there are no two
previews, and the best version is not spelled in two ways. -/
structure Orderless (dirs : List VersionDir) : Prop where
  close : ∀ a ∈ dirs, ∀ b ∈ dirs, a.version - b.version < 2 ^ 31
  onePreview : ∀ a ∈ dirs, ∀ b ∈ dirs, a.preview = true → b.preview = true → a.name = b.name
  oneBest : ∀ {a b}, Best dirs a → Best dirs b → a.name = b.name

/-! ## Comparing -/

/-- `compare` depends on the version and the kind. -/
def rankDiff (r s : Int × Int) : Int :=
  if r.1 ≠ s.1 then (r.1 - s.1).bmod (2 ^ 32) else r.2 - s.2

/-- `compare` is positive. -/
def Beats (r s : Int × Int) : Prop :=
  0 < rankDiff r s

instance : DecidableRel Beats := fun r s =>
  inferInstanceAs (Decidable (0 < rankDiff r s))

def PwshMeta.rank (p : PwshMeta) : Int × Int :=
  (p.version, p.preview.value)

theorem compare_eq_rankDiff (p q : PwshMeta) : p.compare q = rankDiff p.rank q.rank := by
  have hkind : (if p.preview ≠ q.preview then p.preview.value - q.preview.value else 0) =
      p.preview.value - q.preview.value := by
    by_cases hsame : p.preview = q.preview
    · rw [if_neg (not_not.mpr hsame), hsame, Int.sub_self]
    · rw [if_pos hsame]
  rw [PwshMeta.compare, hkind]
  rfl

theorem beats_iff_of_close {r s : Int × Int} (hlt : r.1 - s.1 < 2 ^ 31)
    (hgt : s.1 - r.1 < 2 ^ 31) : Beats r s ↔ ¬ AtMost r s := by
  have hexact : (r.1 - s.1).bmod (2 ^ 32) = r.1 - s.1 :=
    Int.bmod_eq_of_le (by omega) (by omega)
  unfold Beats rankDiff AtMost
  rw [hexact]
  split <;> omega

theorem not_beats_of_far {r s : Int × Int} (hr : r.1 ≤ 2 ^ 31 - 1) (hs : -2 ^ 31 ≤ s.1)
    (hfar : 2 ^ 31 ≤ r.1 - s.1) : ¬ Beats r s := by
  have hwrap : (r.1 - s.1).bmod (2 ^ 32) = r.1 - s.1 - 2 ^ 32 := by
    rw [← Int.sub_bmod_right]
    exact Int.bmod_eq_of_le (by omega) (by omega)
  have hne : r.1 ≠ s.1 := by omega
  unfold Beats rankDiff
  rw [if_pos hne, hwrap]
  omega

theorem newestLoop_eq (p : PwshMeta) (pwshs : List PwshMeta) :
    newestLoop p pwshs = (champion PwshMeta.rank Beats p.rank pwshs).getD p := by
  induction pwshs generalizing p with
  | nil => rfl
  | cons q pwshs ih =>
      rw [newestLoop, champion, ih, compare_eq_rankDiff]
      by_cases hbeats : Beats q.rank p.rank
      · rw [if_pos hbeats, if_pos (show 0 < rankDiff q.rank p.rank from hbeats),
          Option.getD_some]
      · rw [if_neg hbeats, if_neg (show ¬ 0 < rankDiff q.rank p.rank from hbeats)]

/-! ## What is found -/

/-- The element of a directory. -/
def VersionDir.pwshMeta (path : WString) (d : VersionDir) : PwshMeta :=
  ⟨exePath path d.name, d.version, if d.preview then .rc else .none⟩

theorem rank_pwshMeta (path : WString) (d : VersionDir) : (d.pwshMeta path).rank = d.rank := by
  unfold VersionDir.pwshMeta PwshMeta.rank VersionDir.rank
  cases d.preview <;> rfl

/-- A numeral does not end in `-preview`. -/
theorem not_endsWith_preview {numeral : WString} {n : Int} (h : IsNumeral numeral n) :
    endsWithIgnoreCase numeral (wide "-preview") = false := by
  rw [← Bool.not_eq_true, endsWithIgnoreCase_iff]
  rintro ⟨front, ext, rfl, hequal⟩
  rw [equalsIgnoreCase_iff] at hequal
  have hmem : (0x70 : WChar) ∈ ext.map asciiToLower := by
    rw [hequal]
    decide
  obtain ⟨c, hc, hlower⟩ := List.mem_map.mp hmem
  have hletter : c ≠ 0x2D ∧ (c.toNat < 0x30 ∨ 0x39 < c.toNat) := by
    unfold asciiToLower at hlower
    split at hlower
    · next hupper =>
      have hge := UInt16.le_iff_toNat_le.mp hupper.1
      refine ⟨?_, .inr (Nat.lt_of_lt_of_le (by decide) hge)⟩
      rintro rfl
      exact absurd hge (by decide)
    · rw [hlower]
      decide
  exact h.not_mem hletter.1 hletter.2 (List.mem_append_right front hc)

theorem parseName_name (d : VersionDir) :
    parseName d.name = some (d.version, if d.preview then .rc else .none) := by
  have hread := simpleAtoi32_of_isNumeral d.isNumeral d.fits.1 d.fits.2
  unfold parseName VersionDir.name
  cases d.preview with
  | false =>
      rw [if_neg Bool.false_ne_true, List.append_nil, not_endsWith_preview d.isNumeral]
      simp only [Bool.false_eq_true, if_false, hread]
  | true =>
      have hends : endsWithIgnoreCase (d.numeral ++ wide "-preview") (wide "-preview") = true :=
        endsWithIgnoreCase_iff.mpr ⟨_, _, rfl, equalsIgnoreCase_self _⟩
      simp only [if_true, hends, List.length_append, Nat.add_sub_cancel, List.take_left, hread]

theorem accumulatePwsh_folderOf (path : WString) (dirs : List VersionDir) :
    accumulatePwsh (folderOf path dirs) = dirs.map (VersionDir.pwshMeta path) := by
  unfold accumulatePwsh folderOf
  rw [if_pos rfl, List.filterMap_map]
  simp only [Function.comp_def, if_true, parseName_name, Option.map_some]
  rw [← List.filterMap_eq_map]
  rfl

theorem exePath_inj {path name name' : WString} :
    exePath path name = exePath path name' ↔ name = name' := by
  rw [exePath, exePath, List.append_cancel_right_eq, List.append_cancel_left_eq]

theorem rank_eq_of_name {d d' : VersionDir} (h : d.name = d'.name) : d.rank = d'.rank := by
  have hparsed := parseName_name d
  rw [h, parseName_name d', Option.some_inj, Prod.mk.injEq] at hparsed
  obtain ⟨hversion, hkind⟩ := hparsed
  rw [VersionDir.rank, VersionDir.rank, hversion]
  cases hd : d.preview <;> cases hd' : d'.preview <;> rw [hd, hd'] at hkind
  · cases hkind
  · cases hkind

/-- The directory that is kept, when `d` is the first one. -/
def newestDir (d : VersionDir) (rest : List VersionDir) : VersionDir :=
  (champion VersionDir.rank Beats d.rank rest).getD d

theorem pwshCore_cons (path : WString) (d : VersionDir) (rest : List VersionDir) :
    pwshCore (folderOf path (d :: rest)) = exePath path (newestDir d rest).name := by
  have hranks : (fun x => (VersionDir.pwshMeta path x).rank) = VersionDir.rank :=
    funext (rank_pwshMeta path)
  unfold pwshCore
  rw [accumulatePwsh_folderOf]
  change (newestLoop (d.pwshMeta path) (rest.map (VersionDir.pwshMeta path))).path = _
  rw [newestLoop_eq, champion_map, hranks, rank_pwshMeta, newestDir]
  cases champion VersionDir.rank Beats d.rank rest with
  | none => rfl
  | some c => rfl

theorem pwshCorePreview_eq (path : WString) (dirs : List VersionDir) :
    pwshCorePreview (folderOf path dirs) =
      ((dirs.find? VersionDir.preview).map fun d => exePath path d.name).getD [] := by
  have hkind : ((fun p : PwshMeta => p.preview == .rc) ∘ VersionDir.pwshMeta path) =
      VersionDir.preview := by
    funext d
    unfold VersionDir.pwshMeta
    rw [Function.comp_apply]
    cases d.preview <;> rfl
  unfold pwshCorePreview
  rw [accumulatePwsh_folderOf]
  cases dirs with
  | nil => rfl
  | cons d dirs =>
      change pwshPreview ((d :: dirs).map (VersionDir.pwshMeta path)) = _
      rw [pwshPreview, List.find?_map, hkind]
      cases (d :: dirs).find? VersionDir.preview with
      | none => rfl
      | some p => rfl

/-! ## The best directory -/

theorem AtMost.refl (r : Int × Int) : AtMost r r :=
  .inr ⟨rfl, le_refl _⟩

theorem AtMost.trans {r s t : Int × Int} (h : AtMost r s) (h' : AtMost s t) : AtMost r t := by
  unfold AtMost at *
  omega

theorem newestDir_mem (d : VersionDir) (rest : List VersionDir) :
    newestDir d rest ∈ d :: rest := by
  unfold newestDir
  cases hchampion : champion VersionDir.rank Beats d.rank rest with
  | none => exact List.mem_cons_self
  | some c => exact List.mem_cons_of_mem _ (mem_of_champion hchampion)

theorem newestDir_of_unbeaten {d : VersionDir} {rest : List VersionDir}
    (h : ∀ x ∈ rest, ¬ Beats x.rank d.rank) : newestDir d rest = d := by
  unfold newestDir
  rw [champion_eq_none_iff.mpr h]
  rfl

section Close

variable {dirs : List VersionDir}
  (hclose : ∀ a ∈ dirs, ∀ b ∈ dirs, a.version - b.version < 2 ^ 31)
include hclose

/-- Between the directories the comparison is that of the ranks. -/
theorem beats_iff_of_mem {a b : VersionDir} (ha : a ∈ dirs) (hb : b ∈ dirs) :
    Beats a.rank b.rank ↔ ¬ AtMost a.rank b.rank :=
  beats_iff_of_close (hclose a ha b hb) (hclose b hb a ha)

theorem strictTotalOn_beats : StrictTotalOn Beats fun r => ∃ d ∈ dirs, d.rank = r where
  total := by
    rintro _ _ ⟨a, ha, rfl⟩ ⟨b, hb, rfl⟩ hbeats
    rw [beats_iff_of_mem hclose ha hb, not_not] at hbeats
    by_cases hsame : b.rank = a.rank
    · exact .inl hsame
    · refine .inr ((beats_iff_of_mem hclose hb ha).mpr fun hle => hsame ?_)
      unfold AtMost at hbeats hle
      exact Prod.ext (by omega) (by omega)
  trans := by
    rintro _ _ _ ⟨a, ha, rfl⟩ ⟨b, hb, rfl⟩ ⟨c, hc, rfl⟩ hab hbc
    rw [beats_iff_of_mem hclose ha hb] at hab
    rw [beats_iff_of_mem hclose hb hc] at hbc
    rw [beats_iff_of_mem hclose ha hc]
    unfold AtMost at *
    omega

theorem best_newestDir {d : VersionDir} {rest : List VersionDir}
    (hmem : ∀ x, x ∈ d :: rest ↔ x ∈ dirs) : Best dirs (newestDir d rest) := by
  have hd : d ∈ dirs := (hmem d).mp List.mem_cons_self
  have hrest : ∀ x ∈ rest, x ∈ dirs := fun x hx => (hmem x).mp (List.mem_cons_of_mem d hx)
  refine ⟨(hmem _).mp (newestDir_mem d rest), fun x hx => ?_⟩
  unfold newestDir
  cases hchampion : champion VersionDir.rank Beats d.rank rest with
  | none =>
      rcases List.mem_cons.mp ((hmem x).mpr hx) with rfl | hx'
      · exact .refl _
      · have hunbeaten := champion_eq_none_iff.mp hchampion x hx'
        rw [beats_iff_of_mem hclose hx hd, not_not] at hunbeaten
        exact hunbeaten
  | some c =>
      have hc := hrest c (mem_of_champion hchampion)
      obtain ⟨hbeats, hgreatest⟩ := champion_greatest (strictTotalOn_beats hclose)
        ⟨d, hd, rfl⟩ (fun y hy => ⟨y, hrest y hy, rfl⟩) hchampion
      have hle : ∀ {y}, y ∈ dirs → Beats c.rank y.rank → AtMost y.rank c.rank := by
        intro y hy hbeats
        rw [beats_iff_of_mem hclose hc hy] at hbeats
        unfold AtMost at *
        omega
      rw [Option.getD_some]
      rcases List.mem_cons.mp ((hmem x).mpr hx) with rfl | hx'
      · exact hle hx hbeats
      · rcases hgreatest x hx' with heq | hbeats'
        · rw [heq]
          exact .refl _
        · exact hle hx hbeats'

end Close

/-! ## Every order -/

theorem newestDir_append {d : VersionDir} {front back : List VersionDir}
    (h : ∀ x ∈ front, ¬ Beats x.rank d.rank) :
    newestDir d (front ++ back) = newestDir d back := by
  rw [newestDir, champion_append_of_none (champion_eq_none_iff.mpr h), newestDir]

theorem exists_perm_cons {dirs : List VersionDir} {d : VersionDir} (h : d ∈ dirs) :
    ∃ rest, (d :: rest).Perm dirs := by
  obtain ⟨front, back, rfl⟩ := List.append_of_mem h
  exact ⟨front ++ back, List.perm_middle.symm⟩

/-- If the versions are far apart some order hides the best one. -/
theorem close_of_selectsBest {path : WString} {dirs : List VersionDir}
    (h : SelectsBest path dirs) :
    ∀ a ∈ dirs, ∀ b ∈ dirs, a.version - b.version < 2 ^ 31 := by
  obtain ⟨newest, preview, hnewest, -, horders⟩ := h
  intro a ha b hb
  by_contra hfar
  rcases hnewest with ⟨hnil, -⟩ | ⟨top, htop, rfl, hgreatest⟩
  · rw [hnil] at ha
    cases ha
  have htopFar : 2 ^ 31 ≤ top.version - b.version := by
    have hle := hgreatest a ha
    unfold AtMost VersionDir.rank at hle
    dsimp only at hle
    omega
  obtain ⟨rest, hperm⟩ := exists_perm_cons hb
  -- `b` comes first, then the directories of the best version, which do not beat it.
  let high := rest.filter fun d => d.version == top.version
  let low := rest.filter fun d => !(d.version == top.version)
  have horder : (b :: (high ++ low)).Perm dirs :=
    ((List.filter_append_perm _ rest).cons b).trans hperm
  have hunbeaten : ∀ x ∈ high, ¬ Beats x.rank b.rank := by
    intro x hx
    have hversion : x.version = top.version := by simpa using (List.mem_filter.mp hx).2
    refine not_beats_of_far x.fits.2 b.fits.1 ?_
    change 2 ^ 31 ≤ x.version - b.version
    omega
  have hresult := (horders _ horder).1
  rw [pwshCore_cons, exePath_inj, newestDir_append hunbeaten] at hresult
  have hversion : (newestDir b low).version = top.version :=
    congrArg Prod.fst (rank_eq_of_name hresult)
  rcases List.mem_cons.mp (newestDir_mem b low) with hself | hlow
  · rw [hself] at hversion
    omega
  · have hother := (List.mem_filter.mp hlow).2
    rw [hversion] at hother
    simp at hother

theorem isBest_exePath {path : WString} {dirs : List VersionDir} {d : VersionDir}
    (h : Best dirs d) : IsBest path dirs (exePath path d.name) :=
  .inr ⟨d, h.1, rfl, h.2⟩

/-- Both selections give the best directory in every order if and only if the versions are
less than `2 ^ 31` apart, there are no two previews, and the best version is not spelled in
two ways. -/
theorem selectsBest_iff (path : WString) (dirs : List VersionDir) :
    SelectsBest path dirs ↔ Orderless dirs := by
  constructor
  · intro h
    have hclose := close_of_selectsBest h
    obtain ⟨newest, preview, -, -, horders⟩ := h
    refine ⟨hclose, ?_, ?_⟩
    · intro a ha b hb hpreview hpreview'
      have hfirst : ∀ {d}, d ∈ dirs → d.preview = true → exePath path d.name = preview := by
        intro d hd hpreview
        obtain ⟨rest, hperm⟩ := exists_perm_cons hd
        rw [← (horders _ hperm).2, pwshCorePreview_eq, List.find?_cons_of_pos hpreview]
        rfl
      exact exePath_inj.mp ((hfirst ha hpreview).trans (hfirst hb hpreview').symm)
    · intro a b ha hb
      have hfirst : ∀ {d}, Best dirs d → exePath path d.name = newest := by
        rintro d ⟨hd, hgreatest⟩
        obtain ⟨rest, hperm⟩ := exists_perm_cons hd
        rw [← (horders _ hperm).1, pwshCore_cons, newestDir_of_unbeaten]
        intro x hx
        have hx' := hperm.subset (List.mem_cons_of_mem d hx)
        rw [beats_iff_of_mem hclose hx' hd, not_not]
        exact hgreatest x hx'
      exact exePath_inj.mp ((hfirst ha).trans (hfirst hb).symm)
  · rintro ⟨hclose, hpreview, hbest⟩
    obtain ⟨newest, hnewest, hcore⟩ : ∃ newest, IsBest path dirs newest ∧
        ∀ order : List VersionDir, order.Perm dirs → pwshCore (folderOf path order) = newest := by
      cases dirs with
      | nil =>
          refine ⟨[], .inl ⟨rfl, rfl⟩, fun order hperm => ?_⟩
          rw [List.perm_nil.mp hperm]
          rfl
      | cons d rest =>
          have htop := best_newestDir hclose (fun x => Iff.rfl)
          refine ⟨_, isBest_exePath htop, fun order hperm => ?_⟩
          obtain ⟨d', rest', rfl⟩ := List.exists_cons_of_length_pos (l := order) (by
            rw [hperm.length_eq]
            exact Nat.succ_pos _)
          rw [pwshCore_cons, exePath_inj]
          exact hbest (best_newestDir hclose fun x => hperm.mem_iff) htop
    obtain ⟨preview, hisPreview, hcorePreview⟩ : ∃ preview,
        IsBest path (dirs.filter VersionDir.preview) preview ∧
          ∀ order : List VersionDir, order.Perm dirs →
            pwshCorePreview (folderOf path order) = preview := by
      cases hfilter : dirs.filter VersionDir.preview with
      | nil =>
          refine ⟨[], .inl ⟨rfl, rfl⟩, fun order hperm => ?_⟩
          have hnone : order.find? VersionDir.preview = none := by
            rw [List.find?_eq_none]
            intro x hx
            exact List.filter_eq_nil_iff.mp hfilter x (hperm.subset hx)
          rw [pwshCorePreview_eq, hnone]
          rfl
      | cons p rest =>
          have hmem : ∀ {x}, x ∈ p :: rest → x ∈ dirs ∧ x.preview = true := by
            intro x hx
            rw [← hfilter] at hx
            exact List.mem_filter.mp hx
          obtain ⟨hp, hpPreview⟩ := hmem List.mem_cons_self
          refine ⟨exePath path p.name, isBest_exePath ⟨List.mem_cons_self, ?_⟩, ?_⟩
          · intro x hx
            obtain ⟨hx', hxPreview⟩ := hmem hx
            rw [rank_eq_of_name (hpreview x hx' p hp hxPreview hpPreview)]
            exact .refl _
          · intro order hperm
            rw [pwshCorePreview_eq]
            cases hfind : order.find? VersionDir.preview with
            | none =>
                exact absurd hpPreview (List.find?_eq_none.mp hfind p (hperm.symm.subset hp))
            | some q =>
                have hq := hperm.subset (List.mem_of_find?_eq_some hfind)
                have hname := hpreview q hq p hp (List.find?_some hfind) hpPreview
                rw [Option.map_some, Option.getD_some, hname]
    exact ⟨newest, preview, hnewest, hisPreview, fun order hperm =>
      ⟨hcore order hperm, hcorePreview order hperm⟩⟩

/-- The directory of the preview of a version with one digit. -/
def previewDir (d : Nat) (hd : d < 10) : VersionDir where
  numeral := Numbers.digitsText [d]
  version := (Support.numberOf 10 [d] : Nat)
  preview := true
  isNumeral := .positive (by simp) (by simpa using hd) (by
    unfold Numbers.vmax Support.numberOf
    simp only [List.foldl_cons, List.foldl_nil]
    omega)
  fits := by
    unfold Support.numberOf
    simp only [List.foldl_cons, List.foldl_nil]
    omega

/-- Of two previews the one that is found first is taken. -/
theorem two_previews_not_selectsBest :
    ¬ SelectsBest (wide "C:") [previewDir 6 (by decide), previewDir 7 (by decide)] := by
  rintro ⟨newest, preview, -, -, horders⟩
  have hfirst := (horders _ (.refl _)).2
  have hsecond := (horders _ (.swap _ _ [])).2
  rw [← hsecond] at hfirst
  revert hfirst
  decide

end Baulk.Env
