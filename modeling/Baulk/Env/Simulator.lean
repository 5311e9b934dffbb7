import Baulk.Core.JsonView

/-!
# Simulated environments

`bela::env::Simulator` holds the environment of a process that is still to be
started: the folders of `PATH` as a list, and the other variables in a map whose
keys ignore case.  It expands variables in texts the way a shell does.
-/

namespace Baulk.Env

/-- `bela::env::Simulator`. -/
structure Simulator where
  paths : List WString := []
  pathexts : List WString := []
  envmap : List (WString × WString) := []

namespace Simulator

/-- The copy constructor.  Its loop goes over the map of the new object, which is
empty, so the variables are not copied. -/
def copy (other : Simulator) : Simulator where
  paths := other.paths
  pathexts := other.pathexts

def lookupEnv (sm : Simulator) (key : WString) : Option WString :=
  (sm.envmap.find? fun entry => equalsIgnoreCase entry.1 key).map Prod.snd

def getEnv (sm : Simulator) (key : WString) : WString :=
  (sm.lookupEnv key).getD []

def setEnv (sm : Simulator) (key value : WString) (force : Bool := false) :
    Simulator :=
  if sm.envmap.any fun entry => equalsIgnoreCase entry.1 key then
    if force then
      { sm with
        envmap := sm.envmap.map fun entry =>
          if equalsIgnoreCase entry.1 key then (entry.1, value) else entry }
    else sm
  else { sm with envmap := sm.envmap ++ [(key, value)] }

/-- The key and the value of `KEY=VALUE`. -/
def splitEnv (nv : WString) : WString × WString :=
  (nv.takeWhile (· ≠ 0x3D), (nv.dropWhile (· ≠ 0x3D)).drop 1)

def putEnv (sm : Simulator) (nv : WString) (force : Bool := false) :
    Simulator :=
  sm.setEnv (splitEnv nv).1 (splitEnv nv).2 force

def pathPushFront (sm : Simulator) (paths : List WString) : Simulator :=
  { sm with paths := paths ++ sm.paths }

end Simulator

/-! ## Expansion -/

/-- `is_shell_specia_var`. -/
def isShellSpecialVar (ch : WChar) : Bool :=
  ch ∈ (wide "*#$@!?-") || (0x30 ≤ ch && ch ≤ 0x39)

def isAlphanum (ch : WChar) : Bool :=
  ch == 0x5F || (0x30 ≤ ch && ch ≤ 0x39) || (0x61 ≤ ch && ch ≤ 0x7A) ||
    (0x41 ≤ ch && ch ≤ 0x5A)

/-- A name in braces, with what stands for it.  A special variable keeps its
closing brace. -/
def resolveBraces (s : WString) : WString × Nat :=
  if (s.drop 1).head? = some 0x7D ∧ (s.head?.any isShellSpecialVar) then
    (s.take 2, 3)
  else if 0x7D ∈ s then
    let name := s.takeWhile (· ≠ 0x7D)
    (name, name.length + 2)
  else ([], 1)

/-- `resovle_shell_name`: the name at the start of a text, and the length of what
stands for it. -/
def resolveShellName (s : WString) : WString × Nat :=
  match s with
  | [] => ([], 0)
  | c :: rest =>
      if c = 0x7B then resolveBraces rest
      else if isShellSpecialVar c then ([c], 1)
      else
        let name := s.takeWhile isAlphanum
        (name, name.length)

/-- The loop of `ExpandEnv`; every pass takes at least one character. -/
def expandLoop (sm : Simulator) : Nat → WString → WString
  | 0, _ => []
  | _, [] => []
  | passes + 1, c :: rest =>
      if c = 0x24 ∧ rest ≠ [] then
        let (name, off) := resolveShellName rest
        let value :=
          if name = [] then if off = 0 then [c] else [] else sm.getEnv name
        value ++ expandLoop sm passes (rest.drop off)
      else c :: expandLoop sm passes rest

def Simulator.expandEnv (sm : Simulator) (raw : WString) : WString :=
  expandLoop sm raw.length raw

def Simulator.pathExpand (sm : Simulator) (raw : WString) : WString :=
  if raw = wide "~" then sm.getEnv (wide "USERPROFILE")
  else if (wide "~\\").isPrefixOf raw || (wide "~/").isPrefixOf raw then
    fromSlash (sm.getEnv (wide "USERPROFILE") ++ wide "\\" ++
      sm.expandEnv (raw.drop 2))
  else fromSlash (sm.expandEnv raw)

example :
    let sm := ({} : Simulator).setEnv (wide "BAULK_ROOT") (wide "C:\\b")
    sm.expandEnv (wide "${BAULK_ROOT}\\x;$baulk_root/$$y") = wide "C:\\b\\x;C:\\b/y" ∧
      sm.pathExpand (wide "$BAULK_ROOT/bin") = wide "C:\\b\\bin" := by
  decide

end Baulk.Env
