import Baulk.Core.ErrorCode

/-!
# Cleaning the download cache

`cleancache` deletes the sub-directories of the temporary folder and the files that were
created more than 30 days ago.  The age of a file is a difference of unsigned numbers, so a
file from the future has a large one, and it is compared in whole milliseconds.
-/

namespace Baulk.Fs

/-- Why the times of a file are not known. -/
inductive TimeFault where
  | createFile (e : SystemError)
  | getFileTime (e : SystemError)

/-- What `directory_iterator` finds in the temporary folder.  Times count 100 nanoseconds. -/
structure TempEntry where
  path : WString
  isDirectory : Bool
  creation : Except TimeFault UInt64

/-- `expires`, in milliseconds. -/
def expires : UInt64 := 30 * 24 * 3600 * 1000

def fileIsExpired (file : TempEntry) (ufnow : UInt64) : Bool :=
  match file.creation with
  | .error _ => false
  | .ok uc =>
      let diffInMillis := (ufnow - uc) / 10000
      decide (expires < diffInMillis)

/-- The loop of `cmd_cleancache`: the entries that `ForceDeleteFolders` is called for.  Its
result is ignored. -/
def cleanEntries (forceMode : Bool) (now : UInt64) : List TempEntry → List TempEntry
  | [] => []
  | p :: entries =>
      if forceMode || p.isDirectory then p :: cleanEntries forceMode now entries
      else if fileIsExpired p now then p :: cleanEntries forceMode now entries
      else cleanEntries forceMode now entries

/-- `cmd_cleancache`: the exit code and the deletions.  The time may not be known, and
`entries` is empty if the folder cannot be read. -/
def cmdCleancache (forceMode : Bool) (now : Option UInt64) (entries : List TempEntry) :
    Int × List TempEntry :=
  match now with
  | none => (1, [])
  | some now => (0, cleanEntries forceMode now entries)

/-! ## What is deleted -/

/-- 30 days, in units of 100 nanoseconds. -/
def thirtyDays : Nat := 30 * 24 * 3600 * 10000000

/-- The entry is to be deleted. -/
def Outdated (now : UInt64) (p : TempEntry) : Prop :=
  p.isDirectory = true ∨ ∃ created, p.creation = .ok created ∧
    created.toNat + thirtyDays < now.toNat

/-- Without `--force` the outdated entries are deleted, and no others. -/
def CleansOutdated (now : UInt64) (entries : List TempEntry) : Prop :=
  ∀ p, p ∈ (cmdCleancache false (some now) entries).2 ↔ p ∈ entries ∧ Outdated now p

/-- A creation time of which the unsigned age says what it should: it is not in the future,
unless by so much that the age is small again, and the age is not between 30 days and a
millisecond more. -/
def Measurable (now created : UInt64) : Prop :=
  (now.toNat < created.toNat →
    2 ^ 64 < created.toNat - now.toNat + (thirtyDays + 10000)) ∧
  (created.toNat + thirtyDays < now.toNat →
    created.toNat + thirtyDays + 10000 ≤ now.toNat)

theorem fileIsExpired_iff {p : TempEntry} {now : UInt64} :
    fileIsExpired p now = true ↔ ∃ created, p.creation = .ok created ∧
      thirtyDays + 10000 ≤ (now - created).toNat := by
  unfold fileIsExpired
  cases p.creation with
  | error fault => simp
  | ok created =>
      have hexpires : expires.toNat = 2592000000 := rfl
      have hdays : thirtyDays = 25920000000000 := rfl
      have hage : ((now - created) / 10000).toNat = (now - created).toNat / 10000 :=
        UInt64.toNat_div _ _
      dsimp only
      rw [decide_eq_true_iff, UInt64.lt_iff_toNat_lt, hage, hexpires, hdays]
      simp only [Except.ok.injEq, exists_eq_left']
      omega

theorem age_toNat (now created : UInt64) :
    (now - created).toNat =
      if created.toNat ≤ now.toNat then now.toNat - created.toNat
      else 2 ^ 64 - (created.toNat - now.toNat) := by
  have hnow := now.toNat_lt
  have hcreated := created.toNat_lt
  rw [UInt64.toNat_sub]
  split <;> omega

theorem expired_iff_outdated {now created : UInt64} :
    (thirtyDays + 10000 ≤ (now - created).toNat ↔ created.toNat + thirtyDays < now.toNat) ↔
      Measurable now created := by
  have hnow := now.toNat_lt
  have hcreated := created.toNat_lt
  have hdays : thirtyDays = 25920000000000 := rfl
  rw [age_toNat, Measurable, hdays]
  split <;> omega

theorem cleanEntries_eq_filter (forceMode : Bool) (now : UInt64) (entries : List TempEntry) :
    cleanEntries forceMode now entries =
      entries.filter fun p => forceMode || p.isDirectory || fileIsExpired p now := by
  induction entries with
  | nil => rfl
  | cons p entries ih =>
      rw [cleanEntries, List.filter_cons, ih]
      cases forceMode || p.isDirectory with
      | true => rfl
      | false =>
          rw [Bool.false_or]
          rfl

theorem mem_deleted_iff {now : UInt64} {entries : List TempEntry} {p : TempEntry} :
    p ∈ (cmdCleancache false (some now) entries).2 ↔
      p ∈ entries ∧ (p.isDirectory = true ∨ fileIsExpired p now = true) := by
  rw [cmdCleancache, cleanEntries_eq_filter, List.mem_filter, Bool.false_or, Bool.or_eq_true]

/-- The outdated entries are deleted, and no others, if and only if every file whose
creation time is known has a measurable one. -/
theorem cleansOutdated_iff {now : UInt64} {entries : List TempEntry} :
    CleansOutdated now entries ↔
      ∀ p ∈ entries, p.isDirectory = false →
        ∀ created, p.creation = .ok created → Measurable now created := by
  have hfile : ∀ {p : TempEntry} {created : UInt64}, p.isDirectory = false →
      p.creation = .ok created →
        ((p.isDirectory = true ∨ fileIsExpired p now = true ↔ Outdated now p) ↔
          Measurable now created) := by
    intro p created hp hcreated
    rw [← expired_iff_outdated, Outdated, fileIsExpired_iff, hp, hcreated]
    simp
  constructor
  · intro h p hmem hp created hcreated
    rw [← hfile hp hcreated]
    have hdeleted := h p
    rw [mem_deleted_iff] at hdeleted
    exact and_congr_right_iff.mp hdeleted hmem
  · intro h p
    rw [mem_deleted_iff]
    refine and_congr_right fun hmem => ?_
    cases hp : p.isDirectory with
    | true => exact iff_of_true (.inl rfl) (.inl hp)
    | false =>
        rw [← hp]
        cases hcreated : p.creation with
        | ok created => exact (hfile hp hcreated).mpr (h p hmem hp created hcreated)
        | error fault =>
            rw [Outdated, fileIsExpired_iff, hcreated]
            simp

/-- A file whose creation time is a second ahead. -/
def futureFile : TempEntry :=
  ⟨wide "a.zip", false, .ok 133000000010000000⟩

theorem futureFile_not_cleansOutdated : ¬ CleansOutdated 133000000000000000 [futureFile] := by
  intro h
  have hdeleted : futureFile ∈ (cmdCleancache false (some 133000000000000000) [futureFile]).2 :=
    mem_deleted_iff.mpr ⟨List.mem_cons_self, .inr (by decide)⟩
  obtain ⟨-, hdirectory | ⟨created, hcreated, hold⟩⟩ := (h futureFile).mp hdeleted
  · cases hdirectory
  · cases hcreated
    revert hold
    decide

end Baulk.Fs
