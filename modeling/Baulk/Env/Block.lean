import Baulk.Env.Constructor
import Baulk.Path.PathCat
import Baulk.Support.Cut
import Baulk.Support.Firsts
import Baulk.Support.Transitions

/-!
# Environment blocks

A process gets its environment as a block of texts `KEY=VALUE`, each with a null character
behind it and one more at the end.  `InitializeEnv` fills a simulator from the block of the own
process; `MakeEnv` makes the block of a process that is started, and keeps it until the
simulator changes.
-/

namespace Baulk.Env

open Support (components components_append_cons firsts cut_cases takeWhile_ne_append_cons
  dropWhile_ne_append_cons dropWhile_ne_of_not_mem forall_ne_of_not_mem)

/-! ## Reading a block -/

def cleanupPathExt (pathext : WString) (exts : List WString) : List WString :=
  let parts := components (· == 0x3B) pathext
  if parts = [] then [wide ".com", wide ".exe", wide ".bat", wide ".cmd"]
  else exts ++ parts.map fun e =>
    if e.head? = some 0x2E then asciiStrToLower e else 0x2E :: asciiStrToLower e

def blockEntries : WString → List WString
  | [] => []
  | c :: s =>
      if c = 0 then []
      else (c :: s.takeWhile (· ≠ 0)) :: blockEntries ((s.dropWhile (· ≠ 0)).drop 1)
  termination_by s => s.length
  decreasing_by
    have hdrop := (List.dropWhile_suffix (l := s) (· ≠ 0)).length_le
    rw [List.length_drop, List.length_cons]
    omega

/-- One entry, as `InitializeEnv` takes it. -/
def readEntry (sm : Simulator) (entry : WString) : Simulator :=
  if 0x3D ∈ entry then
    let nv := Simulator.splitEnv entry
    if equalsIgnoreCase nv.1 (wide "Path") then
      { sm with paths := sm.paths ++ (components (· == 0x3B) nv.2).map pathCat }
    else if equalsIgnoreCase nv.1 (wide "PATHEXT") then
      { sm with pathexts := cleanupPathExt nv.2 sm.pathexts }
    else sm.setEnv nv.1 nv.2
  else sm

/-- `InitializeEnv`; there may be no block. -/
def initializeEnv (sm : Simulator) : Option WString → Simulator
  | none => sm
  | some block => (blockEntries block).foldl readEntry sm

/-- `env_wstrings`. -/
def cleanNames : List WString :=
  [wide "ALLUSERSPROFILE", wide "APPDATA", wide "CommonProgramFiles",
    wide "CommonProgramFiles(x86)", wide "CommonProgramW6432", wide "COMPUTERNAME",
    wide "ComSpec", wide "HOMEDRIVE", wide "HOMEPATH", wide "LOCALAPPDATA", wide "LOGONSERVER",
    wide "NUMBER_OF_PROCESSORS", wide "OS", wide "PATHEXT", wide "PROCESSOR_ARCHITECTURE",
    wide "PROCESSOR_ARCHITEW6432", wide "PROCESSOR_IDENTIFIER", wide "PROCESSOR_LEVEL",
    wide "PROCESSOR_REVISION", wide "ProgramData", wide "ProgramFiles",
    wide "ProgramFiles(x86)", wide "ProgramW6432", wide "PROMPT", wide "PSModulePath",
    wide "PUBLIC", wide "SystemDrive", wide "SystemRoot", wide "TEMP", wide "TMP",
    wide "USERDNSDOMAIN", wide "USERDOMAIN", wide "USERDOMAIN_ROAMINGPROFILE",
    wide "USERNAME", wide "USERPROFILE", wide "windir", wide "SESSIONNAME", wide "WT_SESSION",
    wide "WSLENV", wide "http_proxy", wide "https_proxy", wide "GIT_SSH",
    wide "GIT_SSH_COMMAND", wide "SSH_AUTH_SOCK", wide "SSH_AGENT_PID", wide "CUDA_PATH",
    wide "CUDA_PATH_V9_0", wide "CUDA_PATH_V9_1", wide "CUDA_PATH_V10_0",
    wide "CUDA_PATH_V10_1", wide "CUDA_PATH_V10_2", wide "CUDA_PATH_V11_0",
    wide "CUDA_PATH_V11_1", wide "CUDA_PATH_V11_2", wide "NVCUDASAMPLES_ROOT",
    wide "VULKAN_SDK", wide "ANDROID_NDK_HOME"]

def existsEnv (key : WString) : Bool :=
  cleanNames.any fun name => equalsIgnoreCase name key

/-- One entry, as `InitializeCleanupEnv` takes it. -/
def readCleanEntry (sm : Simulator) (entry : WString) : Simulator :=
  if 0x3D ∈ entry then
    let nv := Simulator.splitEnv entry
    if equalsIgnoreCase nv.1 (wide "PATHEXT") then
      { sm with pathexts := cleanupPathExt nv.2 sm.pathexts }
    else if existsEnv nv.1 then sm.setEnv nv.1 nv.2
    else sm
  else sm

/-- `bela::MakePathEnv`. -/
def makePathEnv (systemroot : WString) : List WString :=
  [systemroot ++ wide "\\System32", systemroot, systemroot ++ wide "\\System32\\Wbem",
    systemroot ++ wide "\\System32\\WindowsPowerShell\\v1.0"]

def initializeCleanupEnv (systemroot : WString) (sm : Simulator) : Option WString → Simulator
  | none => sm
  | some block =>
      let read := (blockEntries block).foldl readCleanEntry sm
      { read with paths := read.paths ++ makePathEnv systemroot }

/-! ## Making a block -/

def entryText (entry : WString × WString) : WString :=
  entry.1 ++ 0x3D :: entry.2

def blockTexts (sm : Simulator) (entries : List (WString × WString)) : List WString :=
  (wide "Path=" ++ joinEnv sm.paths) :: (wide "PATHEXT=" ++ joinEnv sm.pathexts) ::
    entries.map entryText

/-- `makeInternalEnv`, which goes through the map in an order of its own. -/
def makeInternalEnv (order : List (WString × WString) → List (WString × WString))
    (sm : Simulator) : WString :=
  (blockTexts sm (order sm.envmap)).flatMap (· ++ [0]) ++ [0]

/-! ## A simulator and its block -/

/-- `Simulator` with `cachedEnv`. -/
structure CachedSimulator where
  sm : Simulator := {}
  cachedEnv : WString := []

def Simulator.eraseEnv (sm : Simulator) (key : WString) : Simulator :=
  { sm with envmap := sm.envmap.filter fun entry => !equalsIgnoreCase entry.1 key }

/-- `AppendEnv` with a key and a value that are not empty. -/
def Simulator.appendEnv (sm : Simulator) (key value : WString) : Simulator :=
  if equalsIgnoreCase key (wide "PATHEXT") then { sm with pathexts := sm.pathexts ++ [value] }
  else sm.setEnv key (((sm.lookupEnv key).map (· ++ wide ";" ++ value)).getD value) true

/-- The loop of `PathOrganize`: a normalised folder is kept unless there is one with the same
name, ignoring case. -/
def organizePaths (paths : List WString) : List WString :=
  firsts (fun p => p.map asciiToLower) (paths.map pathCat)

/-- The calls that are made on a simulator. -/
inductive Operation where
  | initializeEnv (block : Option WString)
  | initializeCleanupEnv (systemroot : WString) (block : Option WString)
  | addBashCompatible (argv : List WString) (processId commandLine userprofile : WString)
  | setEnv (key value : WString) (force : Bool)
  | putEnv (nv : WString) (force : Bool)
  | eraseEnv (key : WString)
  | appendEnv (key value : WString)
  | pathPushFront (paths : List WString)
  | pathAppend (paths : List WString)
  | pathOrganize
  | makeEnv

/-- The variables of `AddBashCompatible`. -/
def bashVariables (argv : List WString) (processId commandLine userprofile : WString) :
    List (WString × WString) :=
  argv.mapIdx (fun i arg => (wide (Nat.repr i), arg)) ++
    [(wide "$", processId), (wide "@", commandLine), (wide "DOLLAR", wide "$")] ++
    if userprofile = [] then [] else [(wide "HOME", userprofile)]

/-- Add variables that are not there. -/
def emplaceAll (sm : Simulator) (entries : List (WString × WString)) : Simulator :=
  entries.foldl (fun sm entry => sm.setEnv entry.1 entry.2) sm

namespace CachedSimulator

/-- `SetEnv`.  The block is dropped if the map changes. -/
def setEnv (c : CachedSimulator) (key value : WString) (force : Bool) : CachedSimulator :=
  if force || !(c.sm.envmap.any fun entry => equalsIgnoreCase entry.1 key) then
    ⟨c.sm.setEnv key value force, []⟩
  else c

/-- `MakeEnv`: the block, and the simulator that keeps it. -/
def makeEnv (order : List (WString × WString) → List (WString × WString))
    (c : CachedSimulator) : WString × CachedSimulator :=
  if c.cachedEnv = [] then
    (makeInternalEnv order c.sm, ⟨c.sm, makeInternalEnv order c.sm⟩)
  else (c.cachedEnv, c)

/-- One call.  The initialisations do not drop the block. -/
def perform (order : List (WString × WString) → List (WString × WString))
    (c : CachedSimulator) : Operation → CachedSimulator
  | .initializeEnv block => { c with sm := Env.initializeEnv c.sm block }
  | .initializeCleanupEnv systemroot block =>
      { c with sm := Env.initializeCleanupEnv systemroot c.sm block }
  | .addBashCompatible argv processId commandLine userprofile =>
      { c with sm := emplaceAll c.sm (bashVariables argv processId commandLine userprofile) }
  | .setEnv key value force => c.setEnv key value force
  | .putEnv nv force => c.setEnv (Simulator.splitEnv nv).1 (Simulator.splitEnv nv).2 force
  | .eraseEnv key =>
      if c.sm.envmap.any fun entry => equalsIgnoreCase entry.1 key then
        ⟨c.sm.eraseEnv key, []⟩
      else c
  | .appendEnv key value =>
      if key = [] ∨ value = [] then c else ⟨c.sm.appendEnv key value, []⟩
  | .pathPushFront paths => ⟨c.sm.pathPushFront paths, []⟩
  | .pathAppend paths => ⟨{ c.sm with paths := c.sm.paths ++ paths }, []⟩
  | .pathOrganize => ⟨{ c.sm with paths := organizePaths c.sm.paths }, []⟩
  | .makeEnv => (c.makeEnv order).2

end CachedSimulator

/-! ## A block is read as its texts -/

theorem blockEntries_cons {t : WString} (hne : t ≠ []) (hnul : (0 : WChar) ∉ t) (rest : WString) :
    blockEntries (t ++ 0 :: rest) = t :: blockEntries rest := by
  obtain ⟨c, t, rfl⟩ := List.exists_cons_of_ne_nil hne
  rw [List.mem_cons, not_or] at hnul
  rw [List.cons_append, blockEntries, if_neg (Ne.symm hnul.1), takeWhile_ne_append_cons hnul.2,
    dropWhile_ne_append_cons hnul.2]
  rfl

theorem blockEntries_flatMap {texts : List WString}
    (h : ∀ t ∈ texts, t ≠ [] ∧ (0 : WChar) ∉ t) :
    blockEntries (texts.flatMap (· ++ [0]) ++ [0]) = texts := by
  induction texts with
  | nil =>
      rw [List.flatMap_nil, List.nil_append, blockEntries, if_pos rfl]
  | cons t texts ih =>
      obtain ⟨hne, hnul⟩ := h t List.mem_cons_self
      rw [List.flatMap_cons, List.append_assoc, List.append_assoc, List.singleton_append,
        blockEntries_cons hne hnul, ih fun u hu => h u (List.mem_cons_of_mem t hu)]

theorem nul_not_mem_of_blockEntries {s t : WString} (h : t ∈ blockEntries s) :
    (0 : WChar) ∉ t := by
  fun_induction blockEntries s with
  | case1 => exact absurd h List.not_mem_nil
  | case2 => exact absurd h List.not_mem_nil
  | case3 c s hc ih =>
      rcases List.mem_cons.mp h with rfl | h
      · intro hmem
        rcases List.mem_cons.mp hmem with heq | hmem
        · exact hc heq.symm
        · exact absurd (List.mem_takeWhile_imp hmem) (by simp)
      · exact ih h

theorem joinEnv_cons_cons (a b : WString) (values : List WString) :
    joinEnv (a :: b :: values) = a ++ 0x3B :: joinEnv (b :: values) := by
  rw [joinEnv, List.intersperse_cons_cons, List.flatten_cons, List.flatten_cons]
  rfl

theorem mem_joinEnv {values : List WString} {c : WChar} (h : c ∈ joinEnv values) :
    c = 0x3B ∨ ∃ v ∈ values, c ∈ v := by
  induction values with
  | nil => exact absurd h List.not_mem_nil
  | cons a values ih =>
      cases values with
      | nil =>
          rw [joinEnv, List.intersperse_singleton, List.flatten_singleton] at h
          exact .inr ⟨a, List.mem_cons_self, h⟩
      | cons b values =>
          rw [joinEnv_cons_cons, List.mem_append, List.mem_cons] at h
          rcases h with ha | hsemicolon | hrest
          · exact .inr ⟨a, List.mem_cons_self, ha⟩
          · exact .inl hsemicolon
          · exact (ih hrest).imp_right fun ⟨v, hv, hc⟩ => ⟨v, List.mem_cons_of_mem a hv, hc⟩

/-- No two variables have the same name, ignoring case. -/
def KeysApart (entries : List (WString × WString)) : Prop :=
  entries.Pairwise fun a b => equalsIgnoreCase a.1 b.1 = false

end Baulk.Env
