import Baulk.Core.JsonView
import Baulk.Core.Narrow
import Baulk.Pkg.BucketLock
import Mathlib.Data.List.DropRight

/-!
# Freezing packages

`baulk freeze` and `baulk unfreeze` edit a list of names in the profile.  The
first compares names as UTF-8 and the second as UTF-16, both without regard to
case.  A later run takes a package for frozen if its name is on the list as it
is spelled.
-/

namespace Baulk.Pkg

def freezeKey : Bytes := narrow "freeze"

/-! ## The commands -/

/-- What a command gets from its environment. -/
structure FreezeHost where
  /-- `MakeFsMutex` fails. -/
  mutexError : Option ErrorCode := none
  /-- The profile cannot be read. -/
  parseError : Option ErrorCode := none
  /-- `FormatTime` of the present time. -/
  now : Bytes := []
  /-- What `dump` throws, as it does on strings that are not UTF-8. -/
  dumpError : Option ErrorCode := none
  /-- How `AtomicWriteText` fails. -/
  writeError : Option ErrorCode := none

/-- The result of a command, and the profile after it. -/
structure FreezeRun where
  result : Int
  profile : Json

/-- A name is on the list, unless a comparison is undefined. -/
def listed (pkgName : Bytes) : List Bytes → Option Bool
  | [] => some false
  | p :: rest =>
      match equalsIgnoreCaseNarrow p pkgName with
      | none => none
      | some true => some true
      | some false => listed pkgName rest

/-- The lambda `freeze`. -/
def freezeName (pkgs : List Bytes) (pkgName : Bytes) : Option (List Bytes) :=
  (listed pkgName pkgs).map fun found =>
    if found then pkgs else pkgs ++ [pkgName]

/-- The loop of `cmd_freeze`. -/
def freezeNames (pkgs : List Bytes) : List WString → Option (List Bytes)
  | [] => some pkgs
  | pkgName :: rest =>
      match freezeName pkgs (encodeUtf8 pkgName) with
      | none => none
      | some pkgs => freezeNames pkgs rest

/-- The lambda `contains`. -/
def isArgument (argv : List WString) (pkgName : WString) : Bool :=
  argv.any fun p => equalsIgnoreCase p pkgName

/-- The loop of `cmd_unfreeze`. -/
def unfreezeNames (pkgs : List Bytes) (argv : List WString) : List Bytes :=
  pkgs.filter fun pkgName => !isArgument argv (encodeUtf16 pkgName)

/-- The end of both commands: the new list is written. -/
def writeFrozen (host : FreezeHost) (profile : Json) (pkgs : List Bytes) :
    Except Fault FreezeRun :=
  match profile.set freezeKey (.array (pkgs.map .string)) with
  | .error ec => .error (.thrown ec)
  | .ok doc =>
      match doc.set (narrow "updated") (.string host.now) with
      | .error ec => .error (.thrown ec)
      | .ok doc =>
          match host.dumpError, host.writeError with
          | some ec, _ => .error (.thrown ec)
          | none, some _ => .ok ⟨1, profile⟩
          | none, none => .ok ⟨0, doc⟩

def cmdFreeze (host : FreezeHost) (argv : List WString) (profile : Json) :
    Except Fault FreezeRun :=
  if argv.isEmpty || host.mutexError.isSome || host.parseError.isSome then
    .ok ⟨1, profile⟩
  else
    match profile.getNarrowStringsChecked freezeKey with
    | .error ec => .error (.thrown ec)
    | .ok pkgs =>
        match freezeNames (pkgs.getD []) argv with
        | none => .error .undefined
        | some pkgs => writeFrozen host profile pkgs

def cmdUnfreeze (host : FreezeHost) (argv : List WString) (profile : Json) :
    Except Fault FreezeRun :=
  if argv.isEmpty || host.mutexError.isSome || host.parseError.isSome then
    .ok ⟨1, profile⟩
  else
    match profile.getNarrowStringsChecked freezeKey with
    | .error ec => .error (.thrown ec)
    | .ok pkgs => writeFrozen host profile (unfreezeNames (pkgs.getD []) argv)

/-- The list that `Context::initializeInternal` reads from the profile. -/
def contextPkgs (profile : Json) : Except ErrorCode (List WString) :=
  (profile.getStringsChecked freezeKey).map fun pkgs => pkgs.getD []

/-- `IsFrozenedPackage`, in a run that reads the profile. -/
def isFrozenedPackage (profile : Json) (pkgName : WString) :
    Except ErrorCode Bool :=
  (contextPkgs profile).map fun pkgs => decide (pkgName ∈ pkgs)

/-! ## Histories -/

inductive FreezeKind where
  | freeze
  | unfreeze
  deriving DecidableEq

structure FreezeCommand where
  kind : FreezeKind
  argv : List WString
  host : FreezeHost := {}

def FreezeCommand.run (command : FreezeCommand) (profile : Json) :
    Except Fault FreezeRun :=
  match command.kind with
  | .freeze => cmdFreeze command.host command.argv profile
  | .unfreeze => cmdUnfreeze command.host command.argv profile

/-- Commands one after the other, as long as they succeed. -/
def runCommands : List FreezeCommand → Json → Option Json
  | [], profile => some profile
  | command :: rest, profile =>
      match command.run profile with
      | .ok ⟨0, profile⟩ => runCommands rest profile
      | _ => none

def FreezeCommand.mentions (command : FreezeCommand) (p : WString) : Bool :=
  isArgument command.argv p

def lastMention (commands : List FreezeCommand) (p : WString) :
    Option FreezeKind :=
  (commands.reverse.find? fun command => command.mentions p).map
    FreezeCommand.kind

/-- A later run takes the package for frozen. -/
def Frozen (profile : Json) (p : WString) : Prop :=
  isFrozenedPackage profile p = .ok true

/-- The names on the list of a profile. -/
def frozenNames (profile : Json) : List WString :=
  (contextPkgs profile).toOption.getD []

/-- The names on the list that are the one of a package, without regard to
case. -/
def spellings (p : WString) (names : List WString) : List WString :=
  names.filter fun name => equalsIgnoreCase name p

/-- What the commands are for: a package is frozen if the last command that
mentions it was `freeze`, and no name gets on the list twice. -/
structure FreezeLaw (commands : List FreezeCommand) (profile final : Json)
    (p : WString) : Prop where
  frozen : Frozen final p ↔ match lastMention commands p with
    | some .freeze => True
    | some .unfreeze => False
    | none => Frozen profile p
  once : (spellings p (frozenNames final)).length ≤ 1 ∨
    spellings p (frozenNames final) = spellings p (frozenNames profile)

/-! ### The spelling on the list -/

/-- The command takes the package from the list. -/
def FreezeCommand.unfreezes (p : WString) (command : FreezeCommand) : Bool :=
  command.kind == .unfreeze && command.mentions p

/-- The names that a command can put on the list: those that it is given, up to
a high surrogate that stands alone. -/
def FreezeCommand.names (command : FreezeCommand) : List WString :=
  match command.kind with
  | .freeze => command.argv.map pairedPart
  | .unfreeze => []

/-- The spellings of the initial profile that no command takes away. -/
def standing (commands : List FreezeCommand) (profile : Json) (p : WString) :
    List WString :=
  if commands.any (FreezeCommand.unfreezes p) then []
  else spellings p (frozenNames profile)

/-- The first name that is given for the package after it was last taken from
the list. -/
def firstSpelling (commands : List FreezeCommand) (p : WString) :
    Option WString :=
  ((commands.rtakeWhile fun command => !command.unfreezes p).flatMap
    FreezeCommand.names).find? fun name => equalsIgnoreCase name p

/-- When the law holds for a package: it is on the list as it is spelled. -/
structure AsSpelled (commands : List FreezeCommand) (profile : Json)
    (p : WString) : Prop where
  /-- After `freeze` its spelling is the one that got on the list first. -/
  spelled : lastMention commands p = some .freeze →
    p ∈ standing commands profile p ∨
      standing commands profile p = [] ∧ firstSpelling commands p = some p
  /-- No other argument turns into its name. -/
  whole : lastMention commands p ≠ some .freeze →
    standing commands profile p = [] → firstSpelling commands p ≠ some p

/-! ## Commands on the names -/

/-- The parser accepts only UTF-8. -/
def Utf8Names (pkgs : List Bytes) : Prop :=
  ∀ pkgName ∈ pkgs, encodeUtf8 (encodeUtf16 pkgName) = pkgName

def Utf8Profile (profile : Json) : Prop :=
  ∀ pkgs, profile.getNarrowStringsChecked freezeKey = .ok (some pkgs) →
    Utf8Names pkgs

/-- A name is added if it is not on the list. -/
def addName (names : List WString) (name : WString) : List WString :=
  if names.any fun other => equalsIgnoreCase other name then names
  else names ++ [name]

/-- What a command that succeeds does to the names. -/
def FreezeCommand.step (command : FreezeCommand) (names : List WString) :
    List WString :=
  match command.kind with
  | .freeze => command.names.foldl addName names
  | .unfreeze => names.filter fun name => !command.mentions name

theorem listed_eq {pkgs : List Bytes} (hpkgs : Utf8Names pkgs)
    {name : WString} {found : Bool}
    (h : listed (encodeUtf8 name) pkgs = some found) :
    found = (pkgs.map encodeUtf16).any
      fun other => equalsIgnoreCase other (pairedPart name) := by
  induction pkgs with
  | nil =>
      cases h
      rfl
  | cons p rest ih =>
      have hrest : Utf8Names rest :=
        fun other hother => hpkgs other (List.mem_cons_of_mem _ hother)
      have hequal : ∀ equal, equalsIgnoreCaseNarrow p (encodeUtf8 name) =
          some equal →
          equal = equalsIgnoreCase (encodeUtf16 p) (pairedPart name) := by
        intro equal hcompare
        rw [← hpkgs p List.mem_cons_self] at hcompare
        rw [equalsIgnoreCaseNarrow_encodeUtf8 hcompare, paired_encodeUtf16 p]
      rw [listed] at h
      rw [List.map_cons, List.any_cons]
      cases hcompare : equalsIgnoreCaseNarrow p (encodeUtf8 name) with
      | none =>
          rw [hcompare] at h
          cases h
      | some equal =>
          rw [← hequal equal hcompare]
          rw [hcompare] at h
          cases equal with
          | true =>
              cases h
              rfl
          | false => exact ih hrest h

theorem utf8_encodeUtf8 (name : WString) :
    encodeUtf8 (encodeUtf16 (encodeUtf8 name)) = encodeUtf8 name := by
  rw [encodeUtf16_encodeUtf8, encodeUtf8_pairedPart]

theorem freezeName_step {pkgs pkgs' : List Bytes} (hpkgs : Utf8Names pkgs)
    {name : WString} (h : freezeName pkgs (encodeUtf8 name) = some pkgs') :
    Utf8Names pkgs' ∧ pkgs'.map encodeUtf16 =
      addName (pkgs.map encodeUtf16) (pairedPart name) := by
  obtain ⟨found, hfound, rfl⟩ := Option.map_eq_some_iff.mp h
  rw [addName, ← listed_eq hpkgs hfound]
  cases found with
  | true => exact ⟨hpkgs, rfl⟩
  | false =>
      constructor
      · intro pkgName hmem
        rcases List.mem_append.mp hmem with hmem | hmem
        · exact hpkgs pkgName hmem
        · rw [List.mem_singleton.mp hmem]
          exact utf8_encodeUtf8 name
      · simp [encodeUtf16_encodeUtf8]

theorem freezeNames_step {argv : List WString} {pkgs pkgs' : List Bytes}
    (hpkgs : Utf8Names pkgs) (h : freezeNames pkgs argv = some pkgs') :
    Utf8Names pkgs' ∧ pkgs'.map encodeUtf16 =
      (argv.map pairedPart).foldl addName (pkgs.map encodeUtf16) := by
  induction argv generalizing pkgs with
  | nil =>
      cases h
      exact ⟨hpkgs, rfl⟩
  | cons name rest ih =>
      rw [freezeNames] at h
      cases hname : freezeName pkgs (encodeUtf8 name) with
      | none =>
          rw [hname] at h
          cases h
      | some pkgs₁ =>
          rw [hname] at h
          obtain ⟨hpkgs₁, hmap⟩ := freezeName_step hpkgs hname
          rw [List.map_cons, List.foldl_cons, ← hmap]
          exact ih hpkgs₁ h

theorem frozenNames_of_narrow {profile : Json} {pkgs : Option (List Bytes)}
    (h : profile.getNarrowStringsChecked freezeKey = .ok pkgs) :
    frozenNames profile = (pkgs.getD []).map encodeUtf16 := by
  rw [frozenNames, contextPkgs, Json.getStringsChecked_eq, h]
  cases pkgs <;> rfl

theorem Utf8Profile.names {profile : Json} (h : Utf8Profile profile)
    {pkgs : Option (List Bytes)}
    (hpkgs : profile.getNarrowStringsChecked freezeKey = .ok pkgs) :
    Utf8Names (pkgs.getD []) := by
  cases pkgs with
  | none => exact fun _ hmem => absurd hmem List.not_mem_nil
  | some pkgs => exact h pkgs hpkgs

theorem writeFrozen_success {host : FreezeHost} {profile profile' : Json}
    {pkgs : List Bytes}
    (h : writeFrozen host profile pkgs = .ok ⟨0, profile'⟩) :
    profile'.getNarrowStringsChecked freezeKey = .ok (some pkgs) := by
  unfold writeFrozen at h
  cases hset : profile.set freezeKey (.array (pkgs.map .string)) with
  | error ec =>
      rw [hset] at h
      cases h
  | ok doc =>
      obtain ⟨hmap, rfl⟩ := Json.set_eq_ok_iff.mp hset
      rw [hset] at h
      dsimp only at h
      cases hset' : (profile.setMember freezeKey
          (.array (pkgs.map .string))).set (narrow "updated")
            (.string host.now) with
      | error ec =>
          rw [hset'] at h
          cases h
      | ok doc' =>
          obtain ⟨hmap', rfl⟩ := Json.set_eq_ok_iff.mp hset'
          rw [hset'] at h
          dsimp only at h
          split at h
          · cases h
          · cases h
          · cases h
            rw [Json.getNarrowStringsChecked, hmap'.find_setMember,
              if_neg (by decide), hmap.find_setMember, if_pos rfl]
            dsimp only
            rw [Json.rawTexts_map_string]
            rfl

theorem FreezeCommand.run_success {command : FreezeCommand}
    {profile profile' : Json} (hprofile : Utf8Profile profile)
    (h : command.run profile = .ok ⟨0, profile'⟩) :
    Utf8Profile profile' ∧
      frozenNames profile' = command.step (frozenNames profile) := by
  have hread : ∃ pkgs pkgs', profile.getNarrowStringsChecked freezeKey =
        .ok pkgs ∧
      writeFrozen command.host profile pkgs' = .ok ⟨0, profile'⟩ ∧
      Utf8Names pkgs' ∧ pkgs'.map encodeUtf16 =
        command.step ((pkgs.getD []).map encodeUtf16) := by
    obtain ⟨kind, argv, host⟩ := command
    cases kind with
    | freeze =>
        change cmdFreeze host argv profile = _ at h
        unfold cmdFreeze at h
        split at h
        · cases h
        cases hpkgs : profile.getNarrowStringsChecked freezeKey with
        | error ec =>
            rw [hpkgs] at h
            cases h
        | ok pkgs =>
            rw [hpkgs] at h
            dsimp only at h
            cases hnames : freezeNames (pkgs.getD []) argv with
            | none =>
                rw [hnames] at h
                cases h
            | some pkgs' =>
                rw [hnames] at h
                have hstep := freezeNames_step (hprofile.names hpkgs) hnames
                exact ⟨pkgs, pkgs', rfl, h, hstep.1, hstep.2⟩
    | unfreeze =>
        change cmdUnfreeze host argv profile = _ at h
        unfold cmdUnfreeze at h
        split at h
        · cases h
        cases hpkgs : profile.getNarrowStringsChecked freezeKey with
        | error ec =>
            rw [hpkgs] at h
            cases h
        | ok pkgs =>
            rw [hpkgs] at h
            refine ⟨pkgs, _, rfl, h, ?_, ?_⟩
            · intro pkgName hmem
              exact hprofile.names hpkgs pkgName (List.mem_filter.mp hmem).1
            · change (unfreezeNames (pkgs.getD []) argv).map encodeUtf16 =
                ((pkgs.getD []).map encodeUtf16).filter
                  fun name => !isArgument argv name
              rw [List.filter_map]
              rfl
  obtain ⟨pkgs, pkgs', hpkgs, hwrite, hutf8, hstep⟩ := hread
  have hnew := writeFrozen_success hwrite
  constructor
  · intro pkgs'' h''
    rw [hnew] at h''
    cases h''
    exact hutf8
  · rw [frozenNames_of_narrow hnew, frozenNames_of_narrow hpkgs]
    exact hstep

theorem frozenNames_runCommands {commands : List FreezeCommand}
    {profile final : Json} (hprofile : Utf8Profile profile)
    (h : runCommands commands profile = some final) :
    frozenNames final =
      commands.foldl (fun names command => command.step names)
        (frozenNames profile) := by
  induction commands generalizing profile with
  | nil =>
      cases h
      rfl
  | cons command rest ih =>
      rw [runCommands] at h
      split at h
      · rename_i profile' hrun
        obtain ⟨hprofile', hstep⟩ := command.run_success hprofile hrun
        rw [List.foldl_cons, ← hstep]
        exact ih hprofile' h
      · cases h

/-! ## The names of one package -/

theorem isArgument_congr {a b : WString} (h : equalsIgnoreCase a b = true)
    (argv : List WString) : isArgument argv a = isArgument argv b := by
  unfold isArgument
  congr 1
  funext p
  exact equalsIgnoreCase_congr h p

theorem spellings_addName (p : WString) (names : List WString)
    (name : WString) :
    spellings p (addName names name) =
      if spellings p names = [] ∧ equalsIgnoreCase name p = true then [name]
      else spellings p names := by
  have hother : equalsIgnoreCase name p = true → ∀ other,
      equalsIgnoreCase other name = equalsIgnoreCase other p :=
    fun hname other => equalsIgnoreCase_congr hname other
  unfold addName
  by_cases hlisted : names.any (fun other => equalsIgnoreCase other name) = true
  · rw [if_pos hlisted, if_neg]
    rintro ⟨hnone, hname⟩
    obtain ⟨other, hmem, hequal⟩ := List.any_eq_true.mp hlisted
    rw [hother hname] at hequal
    exact List.filter_eq_nil_iff.mp hnone other hmem hequal
  · rw [if_neg hlisted, spellings, List.filter_append]
    by_cases hname : equalsIgnoreCase name p = true
    · have hnone : spellings p names = [] := by
        apply List.filter_eq_nil_iff.mpr
        intro other hmem hequal
        rw [← hother hname] at hequal
        exact hlisted (List.any_eq_true.mpr ⟨other, hmem, hequal⟩)
      rw [if_pos ⟨hnone, hname⟩]
      rw [spellings] at hnone
      rw [hnone, List.filter_singleton, hname]
      rfl
    · rw [if_neg fun h => hname h.2, List.filter_singleton,
        Bool.eq_false_of_not_eq_true hname]
      exact List.append_nil _

theorem spellings_foldl_addName (p : WString) (xs names : List WString) :
    spellings p (xs.foldl addName names) =
      if spellings p names = [] then
        (xs.find? fun name => equalsIgnoreCase name p).toList
      else spellings p names := by
  induction xs generalizing names with
  | nil =>
      by_cases hnone : spellings p names = []
      · rw [if_pos hnone]
        exact hnone
      · rw [if_neg hnone]
        rfl
  | cons name xs ih =>
      rw [List.foldl_cons, ih, spellings_addName, List.find?_cons]
      by_cases hnone : spellings p names = []
      · by_cases hname : equalsIgnoreCase name p = true
        · simp [hnone, hname]
        · simp [hnone, hname]
      · simp [hnone]

theorem spellings_step (p : WString) (command : FreezeCommand)
    (names : List WString) :
    spellings p (command.step names) =
      if command.unfreezes p then []
      else if spellings p names = [] then
        (command.names.find? fun name => equalsIgnoreCase name p).toList
      else spellings p names := by
  obtain ⟨kind, argv, host⟩ := command
  cases kind with
  | freeze =>
      rw [if_neg (by simp [FreezeCommand.unfreezes])]
      exact spellings_foldl_addName p (argv.map pairedPart) names
  | unfreeze =>
      change spellings p (names.filter fun name => !isArgument argv name) =
        if isArgument argv p then [] else
          if spellings p names = [] then [] else spellings p names
      have hsame : ∀ name, equalsIgnoreCase name p = true →
          isArgument argv name = isArgument argv p :=
        fun name hname => isArgument_congr hname argv
      rw [spellings, List.filter_filter]
      by_cases hp : isArgument argv p = true
      · rw [if_pos hp]
        apply List.filter_eq_nil_iff.mpr
        intro name hmem hboth
        rw [Bool.and_eq_true] at hboth
        rw [hsame name hboth.1, hp] at hboth
        exact Bool.false_ne_true hboth.2
      · rw [if_neg hp]
        trans spellings p names
        · apply List.filter_congr
          intro name hmem
          by_cases hname : equalsIgnoreCase name p = true
          · simp [hname, hsame name hname, hp]
          · simp [hname]
        · by_cases hnone : spellings p names = []
          · rw [if_pos hnone, hnone]
          · rw [if_neg hnone]

/-- The spelling on the list after a history: one of those that were there, or
the first one that was given. -/
theorem spellings_runCommands (commands : List FreezeCommand) (profile : Json)
    (p : WString) :
    spellings p (commands.foldl (fun names command => command.step names)
        (frozenNames profile)) =
      if standing commands profile p = [] then
        (firstSpelling commands p).toList
      else standing commands profile p := by
  induction commands using List.reverseRecOn with
  | nil =>
      change spellings p (frozenNames profile) =
        if spellings p (frozenNames profile) = [] then []
        else spellings p (frozenNames profile)
      by_cases hnone : spellings p (frozenNames profile) = []
      · rw [if_pos hnone, hnone]
      · rw [if_neg hnone]
  | append_singleton commands command ih =>
      rw [List.foldl_append, List.foldl_cons, List.foldl_nil, spellings_step,
        ih]
      unfold standing firstSpelling
      rw [List.any_append, List.rtakeWhile_concat]
      cases hcommand : command.unfreezes p with
      | true => simp [hcommand]
      | false =>
          simp only [List.any_cons, hcommand, List.any_nil, Bool.or_false,
            Bool.false_eq_true, if_false, Bool.not_false, if_true,
            List.flatMap_append, List.find?_append, List.flatMap_singleton]
          generalize (if commands.any (FreezeCommand.unfreezes p) = true then []
            else spellings p (frozenNames profile)) = before
          by_cases hbefore : before = []
          · rw [if_pos hbefore, if_pos hbefore]
            cases List.find? (fun name => equalsIgnoreCase name p)
                (((commands.rtakeWhile fun command =>
                  !command.unfreezes p).flatMap FreezeCommand.names)) with
            | none => rfl
            | some name => rfl
          · rw [if_neg hbefore, if_neg hbefore, if_neg hbefore]

/-! ## The law -/

theorem frozen_iff {profile : Json} {p : WString} :
    Frozen profile p ↔ p ∈ spellings p (frozenNames profile) := by
  have hmem : p ∈ spellings p (frozenNames profile) ↔
      p ∈ frozenNames profile := by
    rw [spellings, List.mem_filter, and_iff_left (equalsIgnoreCase_self p)]
  rw [hmem, Frozen, isFrozenedPackage, frozenNames]
  cases contextPkgs profile with
  | error ec => exact iff_of_false nofun List.not_mem_nil
  | ok pkgs =>
      change Except.ok (decide (p ∈ pkgs)) = Except.ok true ↔ p ∈ pkgs
      rw [Except.ok.injEq, decide_eq_true_iff]

theorem mem_entered_iff (commands : List FreezeCommand) (profile : Json)
    (p : WString) :
    (p ∈ if standing commands profile p = [] then
        (firstSpelling commands p).toList
      else standing commands profile p) ↔
      p ∈ standing commands profile p ∨
        standing commands profile p = [] ∧ firstSpelling commands p = some p := by
  by_cases hnone : standing commands profile p = []
  · rw [if_pos hnone, Option.mem_toList, hnone]
    simp
  · rw [if_neg hnone]
    simp [hnone]

theorem standing_of_none {commands : List FreezeCommand} {p : WString}
    (h : lastMention commands p = none) (profile : Json) :
    standing commands profile p = spellings p (frozenNames profile) := by
  rw [lastMention, Option.map_eq_none_iff, List.find?_eq_none] at h
  refine if_neg fun hany => ?_
  obtain ⟨command, hmem, hcommand⟩ := List.any_eq_true.mp hany
  rw [FreezeCommand.unfreezes, Bool.and_eq_true] at hcommand
  exact h command (List.mem_reverse.mpr hmem) hcommand.2

theorem standing_of_unfreeze {commands : List FreezeCommand} {p : WString}
    (h : lastMention commands p = some .unfreeze) (profile : Json) :
    standing commands profile p = [] := by
  obtain ⟨command, hfind, hkind⟩ := Option.map_eq_some_iff.mp h
  apply if_pos
  apply List.any_eq_true.mpr
  refine ⟨command, List.mem_reverse.mp (List.mem_of_find?_eq_some hfind), ?_⟩
  have hmentions : command.mentions p = true := by
    simpa using List.find?_some hfind
  rw [FreezeCommand.unfreezes, hkind, hmentions]
  rfl

/-- After a history of commands that succeed, the law holds for a package exactly
if it is on the list as it is spelled. -/
theorem freezeLaw_iff {commands : List FreezeCommand} {profile final : Json}
    (hprofile : Utf8Profile profile)
    (hrun : runCommands commands profile = some final) (p : WString) :
    FreezeLaw commands profile final p ↔ AsSpelled commands profile p := by
  have hfinal : spellings p (frozenNames final) =
      if standing commands profile p = [] then
        (firstSpelling commands p).toList
      else standing commands profile p := by
    rw [frozenNames_runCommands hprofile hrun, spellings_runCommands]
  have honce : (spellings p (frozenNames final)).length ≤ 1 ∨
      spellings p (frozenNames final) = spellings p (frozenNames profile) := by
    rw [hfinal]
    by_cases hnone : standing commands profile p = []
    · rw [if_pos hnone]
      left
      cases firstSpelling commands p <;> simp
    · rw [if_neg hnone]
      right
      rw [standing] at hnone ⊢
      split
      · rename_i hany
        rw [if_pos hany] at hnone
        exact absurd rfl hnone
      · rfl
  have hfrozen : Frozen final p ↔ p ∈ standing commands profile p ∨
      standing commands profile p = [] ∧ firstSpelling commands p = some p := by
    rw [frozen_iff, hfinal, mem_entered_iff]
  constructor
  · intro hlaw
    constructor
    · intro hlast
      apply hfrozen.mp
      rw [hlaw.frozen, hlast]
      trivial
    · intro hlast hnone hfirst
      have hnow : Frozen final p := hfrozen.mpr (.inr ⟨hnone, hfirst⟩)
      rw [hlaw.frozen] at hnow
      cases hmention : lastMention commands p with
      | none =>
          rw [hmention, frozen_iff, ← standing_of_none hmention, hnone] at hnow
          exact List.not_mem_nil hnow
      | some kind =>
          cases kind with
          | freeze => exact hlast hmention
          | unfreeze =>
              rw [hmention] at hnow
              exact hnow
  · intro hspelled
    refine ⟨?_, honce⟩
    rw [hfrozen]
    cases hmention : lastMention commands p with
    | none =>
        dsimp only
        rw [frozen_iff, ← standing_of_none hmention]
        refine or_iff_left fun h => ?_
        exact hspelled.whole (by rw [hmention]; nofun) h.1 h.2
    | some kind =>
        cases kind with
        | freeze => exact iff_of_true (hspelled.spelled hmention) trivial
        | unfreeze =>
            have hnone := standing_of_unfreeze hmention profile
            refine iff_of_false ?_ id
            rintro (hmem | ⟨-, hfirst⟩)
            · rw [hnone] at hmem
              exact List.not_mem_nil hmem
            · exact hspelled.whole (by rw [hmention]; nofun) hnone hfirst

/-! ### A package in another spelling -/

def emptyProfile : Json := .object [] List.nodup_nil fun _ => .null

/-- `baulk freeze Wget`. -/
def freezeWget : FreezeCommand where
  kind := .freeze
  argv := [wide "Wget"]

def wgetProfile : Json :=
  (emptyProfile.setMember freezeKey (.array [.string (narrow "Wget")])).setMember
    (narrow "updated") (.string [])

theorem runCommands_wget :
    runCommands [freezeWget] emptyProfile = some wgetProfile :=
  rfl

theorem utf8_emptyProfile : Utf8Profile emptyProfile := by
  intro pkgs h
  cases h

/-- It is frozen under the name that was given. -/
theorem freezeLaw_wget :
    FreezeLaw [freezeWget] emptyProfile wgetProfile (wide "Wget") := by
  apply (freezeLaw_iff utf8_emptyProfile runCommands_wget _).mpr
  constructor
  · intro hlast
    exact .inr ⟨by decide, by decide⟩
  · intro hlast
    exact absurd (by decide) hlast

/-- It is not frozen under its usual name. -/
theorem freezeLaw_other_case :
    runCommands [freezeWget] emptyProfile = some wgetProfile ∧
      ¬ FreezeLaw [freezeWget] emptyProfile wgetProfile (wide "wget") := by
  refine ⟨rfl, fun h => ?_⟩
  have hfrozen : Frozen wgetProfile (wide "wget") := by
    rw [h.frozen]
    exact trivial
  revert hfrozen
  rw [frozen_iff]
  decide

end Baulk.Pkg
