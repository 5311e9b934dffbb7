import Baulk.Migrate.Folders
import Mathlib.Data.List.Pairwise

/-!
# `Migrator::Execute`

The folders of a legacy installation are moved to where a portable one has them,
and then the mode is written.  The lock file is in a folder that is moved.  If the
run fails after that, the next one cannot create the lock file, so it does not get
as far as the folders.
-/

namespace Baulk.Migrate

open Support

/-! ## The folders -/

/-- `FsRedirectionTable`, without what is not moved; paths are relative to
`appLocation`. -/
structure FsRedirectionTable where
  appData : List WString
  etc : List WString
  vfs : List WString
  temp : List WString
  packages : List WString
  locks : List WString
  buckets : List WString
  appLinks : List WString

/-- `InitializeFromLegacy`. -/
def legacyTable : FsRedirectionTable where
  etc := [wide "bin", wide "etc"]
  appData := [wide "bin", wide "appdata"]
  vfs := [wide "bin", wide "vfs"]
  packages := [wide "bin", wide "pkgs"]
  temp := [wide "bin", wide "pkgs", wide ".pkgtmp"]
  locks := [wide "bin", wide "locks"]
  buckets := [wide "buckets"]
  appLinks := [wide "bin", wide "links"]

/-- `InitializeFromPortable`. -/
def portableTable : FsRedirectionTable where
  etc := [wide "etc"]
  appData := [wide "appdata"]
  vfs := [wide "vfs"]
  packages := [wide "packages"]
  temp := [wide "temp"]
  locks := [wide "locks"]
  buckets := [wide "buckets"]
  appLinks := [wide "local", wide "bin"]

/-- The folders in the order in which `Execute` moves them. -/
def folders : List FolderPair :=
  [(legacyTable.appData, portableTable.appData),
    (legacyTable.etc, portableTable.etc),
    (legacyTable.vfs, portableTable.vfs),
    (legacyTable.temp, portableTable.temp),
    (legacyTable.packages, portableTable.packages),
    (legacyTable.locks, portableTable.locks),
    (legacyTable.buckets, portableTable.buckets),
    (legacyTable.appLinks, portableTable.appLinks)]

/-- `AppFsMutexPath`. -/
def pidFile : List WString :=
  legacyTable.temp ++ [wide "baulk.pid"]

def envFile : List WString :=
  [wide "baulk.env"]

/-- `envContent`, in UTF-8. -/
def envContent : Bytes :=
  narrow ("\x7b\n    // Do not modify, baulk relies on this file to select the " ++
    "operating mode  \n    \"mode\": \"Portable\"\n\x7d")

/-! ## The run -/

/-- The step that fails for a reason outside the installation. -/
inductive Failure where
  /-- `InitializeFastPathFs`. -/
  | startup
  /-- `MakeFsMutex`, also because a process holds the mutex. -/
  | lock
  /-- `moveFolder` of the folder with this number. -/
  | move (i : Nat) (made : Bool)
  /-- `WriteText`: `CreateFileW`, or `WriteFile` after so many bytes. -/
  | env (written : Option (Fin envContent.length))
  deriving DecidableEq

/-- `InitializeInternal` of an installation that is not packaged: the mode. -/
def appMode (readMode : Bytes → Option WString) (m : Disk) : Option WString :=
  match m.node envFile with
  | some (.file content) => readMode content
  | _ => some (wide "Portable")

/-- `MakeFsMutex` can create the lock file. -/
def lockable (m : Disk) : Bool :=
  m.isDir legacyTable.temp && !m.isDir pidFile

def moveFailure : Option Failure → Option (Nat × Bool)
  | some (.move i made) => some (i, made)
  | _ => none

/-- `InitializePathFs` of `migrate.cc`. -/
def writeEnv (failure : Option Failure) (m : Disk) : Nat × Disk :=
  match failure with
  | some (.env none) => (1, m)
  | some (.env (some written)) =>
      (1, (m.write envFile (envContent.take written)).getD m)
  | _ => ((m.write envFile envContent).elim 1 fun _ => 0,
      (m.write envFile envContent).getD m)

/-- `Migrator::Execute`: the exit code, and the installation afterwards. -/
def execute (readMode : Bytes → Option WString) (failure : Option Failure)
    (m : Disk) : Nat × Disk :=
  if failure = some .startup then (1, m)
  else
    match appMode readMode m with
    | none => (1, m)
    | some mode =>
        if mode ≠ wide "Legacy" then (0, m)
        else if failure = some .lock ∨ lockable m = false then (1, m)
        else
          let moved := moveAll (moveFailure failure) folders (m.removeFile pidFile)
          if moved.1 then writeEnv failure moved.2 else (1, moved.2)

/-! ## The paths -/

theorem separate_folders : Separate folders where
  proper := by
    have hall : ∀ a ∈ folders, a.2.length ≤ 2 ∧ a.2 ≠ [] ∧
        (a.1 = a.2 ∨ ¬ a.1 <+: a.2) := by
      decide
    intro a ha
    obtain ⟨hshort, hnonempty, hapart⟩ := hall a ha
    exact ⟨hshort, hnonempty, hapart⟩
  apart := by
    decide

/-- No folder is above `baulk.env`, or looked at where the lock file is. -/
theorem folders_files : ∀ a ∈ folders, (¬ a.1 <+: envFile ∧
    Incomparable a.2 envFile) ∧
    (a.1 ≠ pidFile ∧ a.2 ≠ pidFile ∧ a.2.dropLast ≠ pidFile) ∧
    ¬ legacyTable.temp <+: a.2.dropLast := by
  decide

/-- Up to the folder with the lock file, the targets are in the root. -/
theorem folders_first : (∀ a ∈ folders.take 3, ¬ a.1 <+: pidFile ∧
    Incomparable a.2 pidFile ∧ Apart a (legacyTable.temp, portableTable.temp)) ∧
    ∀ a ∈ folders.take 4, a.2.dropLast = [] := by
  decide

theorem temp_getElem :
    folders[3]? = some (legacyTable.temp, portableTable.temp) :=
  rfl

/-! ## Conditions on the installation -/

/-- The mode is that of a legacy installation. -/
def Legacy (readMode : Bytes → Option WString) (m : Disk) : Prop :=
  appMode readMode m = some (wide "Legacy")

/-- The lock file can be created and all folders can be moved. -/
def Ready (m : Disk) : Prop :=
  lockable m = true ∧ ∀ a ∈ folders, Movable m a

/-- The failure comes when the folder of the lock file is moved already. -/
def Late (m : Disk) : Option Failure → Prop
  | some (.move i _) => 3 < i ∧ ∃ a, folders[i]? = some a ∧ ¬ Settled m a
  | some (.env _) => True
  | _ => False

/-- Everything but the lock file and `baulk.env` is where it was, or at the same
place below the target of a folder. -/
def Lossless (m m' : Disk) : Prop :=
  ∀ p n, m.node p = some n → p ≠ pidFile → p ≠ envFile →
    m'.node p = some n ∨
      ∃ a ∈ folders, a.1 <+: p ∧
        m'.node (a.2 ++ p.drop a.1.length) = some n

/-- The run without failures completes, and so does one after the run with the
failure, with the same installation and the portable mode. -/
def Resumes (readMode : Bytes → Option WString) (failure : Option Failure)
    (m : Disk) : Prop :=
  ∃ final, execute readMode none m = (0, final) ∧
    final.node envFile = some (.file envContent) ∧
    execute readMode none (execute readMode failure m).2 = (0, final)

/-! ## The parts of a run -/

section Run

variable {readMode : Bytes → Option WString} {m m' : Disk}

theorem appMode_congr (h : m'.node envFile = m.node envFile) :
    appMode readMode m' = appMode readMode m := by
  unfold appMode
  rw [h]

theorem isDir_pidFile (h : lockable m = true) : m.isDir pidFile = false := by
  unfold lockable at h
  rw [Bool.and_eq_true, Bool.not_eq_true'] at h
  exact h.2

/-- The lock file is gone, and all else is where it was. -/
theorem node_unlocked (h : lockable m = true) (p : List WString) :
    (m.removeFile pidFile).node p = if p = pidFile then none else m.node p :=
  PathMap.node_removeFile (isDir_pidFile h)

theorem agree_unlocked (h : lockable m = true) {a : FolderPair}
    (ha : a ∈ folders) : Agree m (m.removeFile pidFile) a := by
  obtain ⟨-, ⟨hsource, htarget, habove⟩, -⟩ := folders_files a ha
  constructor
  · rw [node_unlocked h, if_neg hsource]
  · rw [node_unlocked h, if_neg htarget]
  · rw [node_unlocked h, if_neg habove]

theorem envFile_unlocked (m : Disk) :
    (m.removeFile pidFile).node envFile = m.node envFile := by
  cases hfile : m.isFile pidFile with
  | false => rw [PathMap.removeFile_of_not_isFile hfile]
  | true =>
      have hdir : m.isDir pidFile = false := by
        obtain ⟨content, hnode⟩ := PathMap.isFile_iff.mp hfile
        unfold PathMap.isDir
        rw [hnode]
        rfl
      rw [PathMap.node_removeFile hdir, if_neg (by decide)]

theorem envFile_moveAll {f : Option (Nat × Bool)} {l : List FolderPair}
    (hl : ∀ a ∈ l, a ∈ folders) :
    (moveAll f l m).2.node envFile = m.node envFile := by
  refine moveAll_frame (fun a ha => separate_folders.proper a (hl a ha))
    (fun a ha => ?_) fun a ha => ?_
  · exact (folders_files a (hl a ha)).1.1
  · exact (folders_files a (hl a ha)).1.2

theorem execute_of_legacy (failure : Option Failure)
    (hlegacy : Legacy readMode m) (hlock : lockable m = true) (hstartup : failure ≠ some .startup)
    (hfree : failure ≠ some .lock) :
    execute readMode failure m =
      let moved := moveAll (moveFailure failure) folders (m.removeFile pidFile)
      if moved.1 then writeEnv failure moved.2 else (1, moved.2) := by
  unfold execute
  rw [if_neg hstartup, hlegacy]
  dsimp only
  rw [if_neg (not_not.mpr rfl), if_neg]
  rintro (h | h)
  · exact hfree h
  · rw [hlock] at h
    cases h

theorem execute_not_lockable (hlegacy : Legacy readMode m)
    (hlock : lockable m = false) : execute readMode none m = (1, m) := by
  unfold execute
  rw [if_neg (by simp), hlegacy]
  dsimp only
  rw [if_neg (not_not.mpr rfl), if_pos (.inr hlock)]

theorem execute_portable (hportable : readMode envContent = some (wide "Portable"))
    (h : m.node envFile = some (.file envContent)) :
    execute readMode none m = (0, m) := by
  have hmode : appMode readMode m = some (wide "Portable") := by
    unfold appMode
    rw [h]
    exact hportable
  unfold execute
  rw [if_neg (by simp), hmode]
  exact if_pos (by decide)

theorem isFile_envFile (hlegacy : Legacy readMode m) :
    m.isFile envFile = true := by
  unfold Legacy appMode at hlegacy
  split at hlegacy
  · rename_i content hnode
    exact PathMap.isFile_iff.mpr ⟨content, hnode⟩
  · exact absurd (Option.some.inj hlegacy) (by decide)

theorem write_envFile (h : m.isFile envFile = true) (content : Bytes) :
    ∃ m', m.write envFile content = some m' ∧
      ∀ p, m'.node p = if p = envFile then some (.file content) else m.node p := by
  have hdir : m.isDir envFile = false := by
    obtain ⟨content', hnode⟩ := PathMap.isFile_iff.mp h
    unfold PathMap.isDir
    rw [hnode]
    rfl
  obtain ⟨m', hm'⟩ := PathMap.write_ne_none (List.cons_ne_nil _ _)
    (PathMap.isDir_iff.mpr m.root) hdir content
  exact ⟨m', hm', PathMap.write_eq_some hm'⟩

/-! ## Nothing is lost -/

theorem writeEnv_node (failure : Option Failure) (m : Disk) {p : List WString}
    (hp : p ≠ envFile) : (writeEnv failure m).2.node p = m.node p := by
  have hwrite : ∀ content, ((m.write envFile content).getD m).node p = m.node p := by
    intro content
    cases hm' : m.write envFile content with
    | none => rfl
    | some m' => exact (PathMap.write_eq_some hm' p).trans (if_neg hp)
  unfold writeEnv
  split
  · rfl
  · exact hwrite _
  · exact hwrite _

theorem lossless_refl (m : Disk) : Lossless m m :=
  fun _ _ hp _ _ => .inl hp

theorem execute_lossless (failure : Option Failure) (m : Disk) :
    Lossless m (execute readMode failure m).2 := by
  unfold execute
  split
  · exact lossless_refl m
  split
  · exact lossless_refl m
  split
  · exact lossless_refl m
  split
  · exact lossless_refl m
  rename_i hlock
  have hlockable : lockable m = true := by
    cases h : lockable m with
    | true => rfl
    | false => exact absurd (.inr h) hlock
  intro p n hp hpid henv
  have hstart : (m.removeFile pidFile).node p = some n := by
    rw [node_unlocked hlockable, if_neg hpid, hp]
  have hkept := moveAll_kept (f := moveFailure failure) separate_folders hstart
  dsimp only
  have hafter : ∀ q, q ≠ envFile →
      (if (moveAll (moveFailure failure) folders (m.removeFile pidFile)).1 = true then
        writeEnv failure
          (moveAll (moveFailure failure) folders (m.removeFile pidFile)).2
      else (1, (moveAll (moveFailure failure) folders (m.removeFile pidFile)).2)
      ).2.node q =
        (moveAll (moveFailure failure) folders (m.removeFile pidFile)).2.node q := by
    intro q hq
    split
    · exact writeEnv_node failure _ hq
    · rfl
  rcases hkept with hsame | ⟨a, ha, hbelow, hmoved⟩
  · left
    rw [hafter p henv, hsame]
  · right
    refine ⟨a, ha, hbelow, ?_⟩
    rw [hafter, hmoved]
    intro heq
    have habove := List.prefix_append a.2 (p.drop a.1.length)
    rw [heq] at habove
    exact (folders_files a ha).1.2.left habove

/-! ## Runs without failures -/

theorem ready_unlocked (hready : Ready m) :
    ∀ a ∈ folders, Movable (m.removeFile pidFile) a := by
  intro a ha
  exact (agree_unlocked hready.1 ha).movable_iff.mpr (hready.2 a ha)

theorem execute_ready (hlegacy : Legacy readMode m) (hready : Ready m) :
    (moveAll none folders (m.removeFile pidFile)).1 = true ∧
    ∃ final, (moveAll none folders (m.removeFile pidFile)).2.write envFile
        envContent = some final ∧
      execute readMode none m = (0, final) ∧
      final.node envFile = some (.file envContent) := by
  have htrue := moveAll_of_movable separate_folders (ready_unlocked hready)
  have henv : (moveAll none folders (m.removeFile pidFile)).2.isFile envFile =
      true := by
    have hfile := isFile_envFile hlegacy
    unfold PathMap.isFile at hfile ⊢
    rw [envFile_moveAll fun a ha => ha, envFile_unlocked, hfile]
  obtain ⟨final, hfinal, hnode⟩ := write_envFile henv envContent
  refine ⟨htrue, final, hfinal, ?_, ?_⟩
  · rw [execute_of_legacy none hlegacy hready.1 (by simp) (by simp)]
    dsimp only [moveFailure]
    rw [if_pos htrue]
    change ((PathMap.write _ envFile envContent).elim 1 fun _ => 0,
      (PathMap.write _ envFile envContent).getD _) = _
    rw [hfinal]
    rfl
  · rw [hnode, if_pos rfl]

theorem ready_of_execute {final : Disk} (hlegacy : Legacy readMode m)
    (h : execute readMode none m = (0, final)) : Ready m := by
  cases hlock : lockable m with
  | false =>
      rw [execute_not_lockable hlegacy hlock] at h
      cases h
  | true =>
      refine ⟨hlock, fun a ha => ?_⟩
      rw [execute_of_legacy none hlegacy hlock (by simp) (by simp)] at h
      dsimp only [moveFailure] at h
      cases hmoved : (moveAll none folders (m.removeFile pidFile)).1 with
      | false =>
          rw [hmoved, if_neg Bool.false_ne_true] at h
          cases h
      | true =>
          exact (agree_unlocked hlock ha).movable_iff.mp
            (movable_of_moveAll separate_folders hmoved a ha)

theorem isDir_temp (h : Settled m (legacyTable.temp, portableTable.temp)) :
    m.isDir legacyTable.temp = false := by
  rcases h with ⟨heq, -⟩ | ⟨hsource, -⟩
  · exact absurd heq (by decide)
  · exact hsource

/-- After the folder with the lock file is moved, nothing more happens. -/
theorem execute_locked_out (hlegacy : Legacy readMode m)
    (htemp : m.isDir legacyTable.temp = false) :
    execute readMode none m = (1, m) := by
  apply execute_not_lockable hlegacy
  unfold lockable
  rw [htemp]
  rfl

/-! ## Runs after a failure -/

theorem made_root {target : List WString} (htarget : target = [])
    (h : Made m target m') : m' = m := by
  apply PathMap.ext
  funext p
  rcases h p with hsame | ⟨habove, hnone, -⟩
  · exact hsame
  · rw [htarget] at habove
    rw [List.prefix_nil.mp habove, m.root] at hnone
    cases hnone

/-- The folders before one of them, which is not later than that of the lock
file. -/
theorem take_first {i : Nat} (hi : i ≤ 3) {a : FolderPair}
    (ha : a ∈ folders.take i) : a ∈ folders.take 3 := by
  rw [← Nat.min_eq_left hi, ← List.take_take] at ha
  exact List.mem_of_mem_take ha

theorem separate_take (i : Nat) : Separate (folders.take i) := by
  have hall := separate_folders
  rw [← List.take_append_drop i folders] at hall
  exact hall.left

theorem moveAll_take (hready : Ready m) (i : Nat) :
    (moveAll none (folders.take i) (m.removeFile pidFile)).1 = true :=
  moveAll_of_movable (separate_take i) fun a ha =>
    ready_unlocked hready a (List.mem_of_mem_take ha)

/-- The moves up to the folder with the lock file can be taken up again. -/
theorem execute_resumed (hlegacy : Legacy readMode m) (hready : Ready m) {i : Nat}
    (hi : i ≤ 3) :
    execute readMode none
        (moveAll none (folders.take i) (m.removeFile pidFile)).2 =
      execute readMode none m := by
  have hseparate := separate_take i
  have htake := moveAll_take hready i
  have hpid : (moveAll none (folders.take i) (m.removeFile pidFile)).2.node
      pidFile = none := by
    rw [moveAll_frame hseparate.proper
      (fun a ha => (folders_first.1 a (take_first hi ha)).1)
      fun a ha => (folders_first.1 a (take_first hi ha)).2.1,
      node_unlocked hready.1, if_pos rfl]
  have htemp := (moveAll_agree (f := none) (m := m.removeFile pidFile)
    hseparate.proper fun a ha => (folders_first.1 a (take_first hi ha)).2.2).source
  have hmode : Legacy readMode
      (moveAll none (folders.take i) (m.removeFile pidFile)).2 := by
    unfold Legacy
    rw [appMode_congr ((envFile_moveAll fun a ha => List.mem_of_mem_take ha).trans
      (envFile_unlocked m))]
    exact hlegacy
  have hlock : lockable
      (moveAll none (folders.take i) (m.removeFile pidFile)).2 = true := by
    have hbefore := hready.1
    have hstart : (m.removeFile pidFile).node legacyTable.temp =
        m.node legacyTable.temp := by
      rw [node_unlocked hready.1, if_neg (by decide)]
    unfold lockable PathMap.isDir at hbefore ⊢
    rw [Bool.and_eq_true] at hbefore
    rw [htemp, hpid, hstart, hbefore.1]
    rfl
  have hunlocked : ((moveAll none (folders.take i)
      (m.removeFile pidFile)).2.removeFile pidFile) =
      (moveAll none (folders.take i) (m.removeFile pidFile)).2 := by
    apply PathMap.removeFile_of_not_isFile
    unfold PathMap.isFile
    rw [hpid]
    rfl
  have hmoves : moveAll none folders
      (moveAll none (folders.take i) (m.removeFile pidFile)).2 =
      moveAll none folders (m.removeFile pidFile) := by
    have htaken := moveAll_taken_up hseparate htake (folders.drop i)
    rwa [List.take_append_drop] at htaken
  rw [execute_of_legacy none hmode hlock (by simp) (by simp),
    execute_of_legacy none hlegacy hready.1 (by simp) (by simp), hunlocked]
  dsimp only [moveFailure]
  rw [hmoves]

theorem exists_split {i : Nat} {a : FolderPair} (h : folders[i]? = some a) :
    folders = folders.take i ++ a :: folders.drop (i + 1) ∧
      (folders.take i).length = i := by
  obtain ⟨hi, hget⟩ := List.getElem?_eq_some_iff.mp h
  constructor
  · rw [← hget, ← List.drop_eq_getElem_cons hi, List.take_append_drop]
  · rw [List.length_take]
    exact Nat.min_eq_left (le_of_lt hi)

/-- A failure of a move that is settled is none; any other one ends the run. -/
theorem execute_move (hlegacy : Legacy readMode m) (hready : Ready m) {i : Nat}
    {a : FolderPair} (hget : folders[i]? = some a) (made : Bool) :
    (Settled m a → execute readMode (some (.move i made)) m =
      execute readMode none m) ∧
    (¬ Settled m a → ∃ m', Made
        (moveAll none (folders.take i) (m.removeFile pidFile)).2 a.2.dropLast m' ∧
      execute readMode (some (.move i made)) m = (1, m')) := by
  obtain ⟨hsplit, hlength⟩ := exists_split hget
  have ha : a ∈ folders := List.mem_of_getElem? hget
  have hseparate := separate_folders
  rw [hsplit] at hseparate
  obtain ⟨-, hsettled, hfailed⟩ := moveAll_failing made
    (m := m.removeFile pidFile) hseparate fun b hb =>
      ready_unlocked hready b (List.mem_of_mem_take hb)
  rw [hlength, ← hsplit, (agree_unlocked hready.1 ha).settled_iff] at hsettled hfailed
  rw [execute_of_legacy _ hlegacy hready.1 (by simp) (by simp)]
  dsimp only [moveFailure]
  constructor
  · intro h
    rw [hsettled h, execute_of_legacy none hlegacy hready.1 (by simp) (by simp)]
    rfl
  · intro h
    obtain ⟨m', hmade, hresult⟩ := hfailed h
    rw [hresult]
    exact ⟨m', hmade, rfl⟩

theorem resumes_of_ready (hportable : readMode envContent = some (wide "Portable"))
    (hlegacy : Legacy readMode m) (hready : Ready m) {failure : Option Failure}
    (hearly : ¬ Late m failure) : Resumes readMode failure m := by
  obtain ⟨-, final, -, hrun, henv⟩ := execute_ready hlegacy hready
  refine ⟨final, hrun, henv, ?_⟩
  have hdone : execute readMode failure m = execute readMode none m →
      execute readMode none (execute readMode failure m).2 = (0, final) := by
    intro h
    rw [h, hrun]
    exact execute_portable hportable henv
  rcases failure with _ | _ | _ | ⟨i, made⟩ | written
  · exact hdone rfl
  · exact hrun
  · have hstops : execute readMode (some .lock) m = (1, m) := by
      unfold execute
      rw [if_neg (by simp), hlegacy]
      dsimp only
      rw [if_neg (not_not.mpr rfl), if_pos (.inl rfl)]
    rw [hstops, hrun]
  · cases hget : folders[i]? with
    | none =>
        apply hdone
        rw [execute_of_legacy _ hlegacy hready.1 (by simp) (by simp),
          execute_of_legacy none hlegacy hready.1 (by simp) (by simp)]
        dsimp only [moveFailure]
        rw [moveAll_of_length_le (List.getElem?_eq_none_iff.mp hget)]
        rfl
    | some a =>
        obtain ⟨hsettled, hfailed⟩ := execute_move hlegacy hready hget made
        by_cases h : Settled m a
        · exact hdone (hsettled h)
        · obtain ⟨m', hmade, hresult⟩ := hfailed h
          have hi : i ≤ 3 := by
            by_contra hlate
            exact hearly ⟨Nat.not_le.mp hlate, a, hget, h⟩
          have htarget : a.2.dropLast = [] := by
            refine folders_first.2 a ?_
            rw [List.mem_take_iff_getElem]
            obtain ⟨hlt, hget⟩ := List.getElem?_eq_some_iff.mp hget
            exact ⟨i, lt_min (Nat.lt_succ_of_le hi) hlt, hget⟩
          rw [hresult, made_root htarget hmade, execute_resumed hlegacy hready hi,
            hrun]
  · exact absurd trivial hearly

/-- Once the folder with the lock file is moved, a run that fails cannot be taken
up. -/
theorem not_resumed_of_move (hlegacy : Legacy readMode m) (hready : Ready m)
    {i : Nat} (hi : 3 < i) {a : FolderPair} (ha : a ∈ folders)
    (hmade : Made (moveAll none (folders.take i) (m.removeFile pidFile)).2
      a.2.dropLast m') (final : Disk) :
    execute readMode none m' ≠ (0, final) := by
  have hseparate := separate_take i
  have htake := moveAll_take hready i
  have hmem : (legacyTable.temp, portableTable.temp) ∈ folders.take i := by
    rw [List.mem_take_iff_getElem]
    exact ⟨3, lt_min hi (by decide), rfl⟩
  have htemp := isDir_temp (settled_of_moveAll hseparate htake _ hmem)
  have hnode : m'.node envFile = m.node envFile := by
    have hsame := (envFile_moveAll (f := none) (l := folders.take i)
      fun a ha => List.mem_of_mem_take ha).trans (envFile_unlocked m)
    have hexists : m.node envFile ≠ none := by
      obtain ⟨content, hcontent⟩ := PathMap.isFile_iff.mp (isFile_envFile hlegacy)
      exact hcontent ▸ Option.some_ne_none _
    rw [hmade.node (hsame ▸ hexists), hsame]
  have htemp' : m'.isDir legacyTable.temp = false := by
    unfold PathMap.isDir at htemp ⊢
    rw [hmade.node_of_not (folders_files a ha).2.2, htemp]
  rw [execute_locked_out ((appMode_congr hnode).trans hlegacy) htemp']
  simp

/-- A mode that was not written to its end is of no use. -/
theorem not_resumed_of_env (hlegacy : Legacy readMode m) (hready : Ready m)
    (written : Option (Fin envContent.length)) {final : Disk}
    (henv : final.node envFile = some (.file envContent)) :
    execute readMode none (execute readMode (some (.env written)) m).2 ≠
      (0, final) := by
  have htrue := moveAll_of_movable separate_folders (ready_unlocked hready)
  have htemp := isDir_temp (settled_of_moveAll separate_folders htrue _
    (List.mem_of_getElem? temp_getElem))
  have hnode : (moveAll none folders (m.removeFile pidFile)).2.node envFile =
      m.node envFile :=
    (envFile_moveAll fun a ha => ha).trans (envFile_unlocked m)
  rw [execute_of_legacy _ hlegacy hready.1 (by simp) (by simp)]
  dsimp only [moveFailure]
  rw [if_pos htrue]
  cases written with
  | none =>
      change execute readMode none
        (moveAll none folders (m.removeFile pidFile)).2 ≠ _
      rw [execute_locked_out ((appMode_congr hnode).trans hlegacy) htemp]
      simp
  | some written =>
      have hfile : (moveAll none folders (m.removeFile pidFile)).2.isFile envFile =
          true := by
        have hbefore := isFile_envFile hlegacy
        unfold PathMap.isFile at hbefore ⊢
        rw [hnode, hbefore]
      obtain ⟨m₁, hwrite, hafter⟩ := write_envFile hfile (envContent.take written)
      change execute readMode none (Option.getD (PathMap.write
        (moveAll none folders (m.removeFile pidFile)).2 envFile _) _) ≠ _
      rw [hwrite, Option.getD_some]
      intro hrun
      have htemp₁ : m₁.isDir legacyTable.temp = false := by
        unfold PathMap.isDir at htemp ⊢
        rw [hafter, if_neg (by decide), htemp]
      unfold execute at hrun
      rw [if_neg (by simp)] at hrun
      split at hrun
      · cases hrun
      · split at hrun
        · -- not read as a legacy mode, but not the mode that is to be there
          obtain rfl : m₁ = final := congrArg Prod.snd hrun
          rw [hafter, if_pos rfl] at henv
          have hcontent : envContent.take written = envContent := by
            injection henv with henv
            injection henv
          have hlength := congrArg List.length hcontent
          rw [List.length_take] at hlength
          have hlt := written.isLt
          omega
        · rw [if_pos] at hrun
          · cases hrun
          · right
            unfold lockable
            rw [htemp₁]
            rfl

theorem not_late_of_resumes (hlegacy : Legacy readMode m) (hready : Ready m)
    {failure : Option Failure} (h : Resumes readMode failure m) :
    ¬ Late m failure := by
  obtain ⟨final, -, henv, hagain⟩ := h
  rcases failure with _ | _ | _ | ⟨i, made⟩ | written
  · exact id
  · exact id
  · exact id
  · rintro ⟨hi, a, hget, hsettled⟩
    obtain ⟨m', hmade, hresult⟩ :=
      (execute_move hlegacy hready hget made).2 hsettled
    rw [hresult] at hagain
    exact not_resumed_of_move hlegacy hready hi (List.mem_of_getElem? hget) hmade
      final hagain
  · intro _
    exact not_resumed_of_env hlegacy hready written henv hagain

/-- A legacy installation can be migrated in two runs, with a failure in the first
one, exactly if it is ready and the failure does not come after the folder with
the lock file is moved.  Nothing is lost in any case. -/
theorem execute_resumes_iff
    (hportable : readMode envContent = some (wide "Portable"))
    (hlegacy : Legacy readMode m) (failure : Option Failure) :
    Lossless m (execute readMode failure m).2 ∧ Resumes readMode failure m ↔
      Ready m ∧ ¬ Late m failure := by
  constructor
  · rintro ⟨-, hresumes⟩
    have hready : Ready m := by
      obtain ⟨final, hrun, -, -⟩ := hresumes
      exact ready_of_execute hlegacy hrun
    exact ⟨hready, not_late_of_resumes hlegacy hready hresumes⟩
  · rintro ⟨hready, hearly⟩
    exact ⟨execute_lossless failure m,
      resumes_of_ready hportable hlegacy hready hearly⟩

end Run

/-! ### An installation with two folders -/

def legacyEnv : Bytes :=
  narrow "\x7b\"mode\": \"Legacy\"\x7d"

/-- The two modes that are written here. -/
def modeOf (content : Bytes) : Option WString :=
  if content = envContent then some (wide "Portable")
  else if content = legacyEnv then some (wide "Legacy")
  else none

/-- The folders `etc` and `temp`, of a legacy installation. -/
def legacyDisk : Disk :=
  (((PathMap.empty.mkdirs legacyTable.temp).bind fun m =>
    m.mkdirs legacyTable.etc).bind fun m => m.write envFile legacyEnv).getD .empty

instance (m : Disk) (a : FolderPair) : Decidable (Movable m a) :=
  inferInstanceAs (Decidable (_ ∧ (_ ∨ _ ∨ _)))

theorem legacyDisk_ready : lockable legacyDisk = true ∧
    ∀ a ∈ folders, Movable legacyDisk a := by
  decide

theorem legacyDisk_legacy : Legacy modeOf legacyDisk := by
  unfold Legacy
  decide

/-- A failure when `etc` is moved is made good by another run. -/
theorem execute_resumes_etc :
    Lossless legacyDisk (execute modeOf (some (.move 1 false)) legacyDisk).2 ∧
      Resumes modeOf (some (.move 1 false)) legacyDisk := by
  apply (execute_resumes_iff (by decide) legacyDisk_legacy _).mpr
  refine ⟨legacyDisk_ready, ?_⟩
  rintro ⟨hlate, -⟩
  exact absurd hlate (by decide)

/-- A failure when the packages are moved is not. -/
theorem execute_stuck_packages :
    modeOf envContent = some (wide "Portable") ∧ Legacy modeOf legacyDisk ∧
      (∃ final, execute modeOf none legacyDisk = (0, final)) ∧
      ¬ Resumes modeOf (some (.move 4 false)) legacyDisk := by
  have hlegacy := legacyDisk_legacy
  obtain ⟨-, final, -, hrun, -⟩ := execute_ready hlegacy legacyDisk_ready
  refine ⟨by decide, hlegacy, ⟨final, hrun⟩, fun h => ?_⟩
  refine not_late_of_resumes hlegacy legacyDisk_ready h ⟨by decide, _, rfl, ?_⟩
  rintro (⟨heq, -⟩ | ⟨-, hexists⟩)
  · exact absurd heq (by decide)
  · exact absurd hexists (by decide)

end Baulk.Migrate
