import Baulk.Env.Simulator
import Baulk.Pkg.Lock
import Baulk.Support.Firsts
import Baulk.Support.Fold

/-!
# Virtual environments

`baulk::env::Constructor` loads the environments of packages, with those of the
packages that they depend on, and writes them to a simulated environment.  The
counter that bounds the depth of the recursion is never decreased, so it counts
all packages with dependencies.
-/

namespace Baulk.Env

open Pkg Support

/-! ## Loading -/

/-- What `InitializeEnvs` gets from its environment. -/
structure VenvHost where
  /-- The lock file of a package, as `parse_json_file` reads it. -/
  lock : WString → Except ErrorCode Json
  /-- `<name>.local.json`. -/
  localEnv : WString → Except ErrorCode Json
  /-- `AppBasePath`. -/
  basePath : WString := []
  /-- `AppPackages`. -/
  packages : WString := []
  /-- `AppPackageVFS`. -/
  packageVFS : WString → WString := fun _ => []
  /-- The simulator after `InitializeCleanupEnv`. -/
  cleaned : Simulator := {}

/-- The members of a `Constructor`. -/
structure Constructor where
  standardEnvs : List LoadedEnv := []
  requiresEnvs : List LoadedEnv := []
  depth : Nat := 0

/-- Why loading stops. -/
inductive Stop where
  /-- `loadOneEnv` returns false. -/
  | refused (ec : ErrorCode)
  /-- An exception that nothing catches. -/
  | thrown (ec : ErrorCode)
  /-- The recursion does not end within the given number of levels. -/
  | exhausted

def Constructor.envLoaded (st : Constructor) (env : WString) : Bool :=
  (st.standardEnvs.any fun se => se.name == env) ||
    st.requiresEnvs.any fun re => re.name == env

/-- `loadPackageEnv`, of a package in the folders of the host. -/
def VenvHost.load (host : VenvHost) (env : WString) :
    Except ErrorCode (Except ErrorCode LoadedEnv) :=
  loadPackageEnv (host.lock env) (host.localEnv env) env

def Constructor.addStandard (st : Constructor) (pkgEnv : LoadedEnv) :
    Constructor :=
  { st with standardEnvs := st.standardEnvs ++ [pkgEnv] }

def Constructor.addRequires (st : Constructor) (pkgEnv : LoadedEnv) :
    Constructor :=
  { st with requiresEnvs := st.requiresEnvs ++ [pkgEnv] }

/-- One more package with dependencies. -/
def Constructor.enter (st : Constructor) : Constructor :=
  { st with depth := st.depth + 1 }

def loadOneEnv (host : VenvHost) :
    Nat → Constructor → WString → Except Stop Constructor
  | 0, _, _ => .error .exhausted
  | levels + 1, st, env =>
      if st.envLoaded env then .ok st
      else
        match host.load env with
        | .error ec => .error (.thrown ec)
        | .ok (.error ec) =>
            if st.depth ≤ 1 then .ok st else .error (.refused ec)
        | .ok (.ok pkgEnv) =>
            if pkgEnv.dependencies.isEmpty then .ok (st.addStandard pkgEnv)
            else if 31 < st.depth + 1 then .ok (st.enter.addStandard pkgEnv)
            else
              match pkgEnv.dependencies.foldlM (loadOneEnv host levels)
                  st.enter with
              | .error stop => .error stop
              | .ok st => .ok (st.addRequires pkgEnv)

/-- `bela::AsciiStrToLower`. -/
def asciiStrToLower (s : WString) : WString :=
  s.map asciiToLower

/-- The loop of `InitializeEnvs`. -/
def loadEnvs (host : VenvHost) (levels : Nat) (envs : List WString) :
    Except Stop Constructor :=
  (envs.map asciiStrToLower).foldlM (loadOneEnv host levels) {}

/-! ## Flushing -/

/-- `bela::JoinEnv`. -/
def joinEnv (values : List WString) : WString :=
  (values.intersperse (wide ";")).flatten

def simulatorSetEnv (sm : Simulator) (key value : WString) : Simulator :=
  if sm.getEnv key = [] then sm.setEnv key value
  else sm.setEnv key (value ++ wide ";" ++ sm.getEnv key) true

/-- The variables of one package: `newSimulator` in `flushOnceEnv`. -/
def packageSimulator (host : VenvHost) (name : WString) : Simulator :=
  ((((host.cleaned.copy.setEnv (wide "BAULK_ROOT") host.basePath).setEnv
    (wide "BAULK_VFS") (host.packageVFS name)).setEnv
    (wide "BAULK_PACKAGE_VFS") (host.packageVFS name)).setEnv
    (wide "BAULK_PKGROOT") (host.packages ++ wide "\\" ++ name)).setEnv
    (wide "BAULK_PACKAGE_FOLDER") (host.packages ++ wide "\\" ++ name)

/-- The local variables of `flushEnv`, and the simulator that it writes to. -/
structure Flushing where
  sm : Simulator
  paths : List WString := []
  includes : List WString := []
  libs : List WString := []
  /-- What was flushed; its names are `availableEnv`. -/
  available : List LoadedEnv := []

def flushOnceEnv (host : VenvHost) (f : Flushing) (e : LoadedEnv) : Flushing :=
  let newSimulator := packageSimulator host e.name
  { sm := (e.envs.map newSimulator.expandEnv).foldl
      (fun sm nv => sm.putEnv nv true) f.sm
    paths := f.paths ++ e.paths.map newSimulator.pathExpand
    includes := f.includes ++ e.includes.map newSimulator.pathExpand
    libs := f.libs ++ e.libs.map newSimulator.pathExpand
    available := f.available ++ [e] }

/-- One pass of the loops of `flushEnv`. -/
def flushStep (host : VenvHost) (f : Flushing) (e : LoadedEnv) : Flushing :=
  if f.available.any fun ae => equalsIgnoreCase ae.name e.name then f
  else flushOnceEnv host f e

/-- A variable that `flushEnv` sets if there is something for it. -/
def setListEnv (key : WString) (values : List WString) (sm : Simulator) :
    Simulator :=
  if values.isEmpty then sm else simulatorSetEnv sm key (joinEnv values)

/-- `flushEnv`.  `LIB` and `INCLUDE` are set before the loops, from lists that
are still empty. -/
def flushEnv (host : VenvHost) (st : Constructor) (sm : Simulator) :
    Flushing :=
  let f : Flushing := { sm }
  let f := { f with sm := setListEnv (wide "LIB") f.libs f.sm }
  let f := { f with sm := setListEnv (wide "INCLUDE") f.includes f.sm }
  let f := st.standardEnvs.foldl (flushStep host) f
  let f := st.requiresEnvs.foldl (flushStep host) f
  { f with sm := f.sm.pathPushFront f.paths }

/-- `InitializeEnvs`: what was flushed, and the simulator after it.  With an
empty list nothing happens. -/
def initializeEnvs (host : VenvHost) (levels : Nat) (envs : List WString)
    (sm : Simulator) : Except Stop Flushing :=
  if envs.isEmpty then .ok { sm }
  else
    match loadEnvs host levels envs with
    | .error stop => .error stop
    | .ok st => .ok (flushEnv host st sm)

/-! ## One level of the recursion -/

/-- How `loadOneEnv` can return true. -/
inductive Loads (host : VenvHost) (levels : Nat) (st : Constructor)
    (env : WString) : Constructor → Prop where
  | known (hloaded : st.envLoaded env = true) : Loads host levels st env st
  | absent {ec : ErrorCode} (hload : host.load env = .ok (.error ec))
      (hdepth : st.depth ≤ 1) : Loads host levels st env st
  | leaf {pkgEnv : LoadedEnv} (hnew : st.envLoaded env = false)
      (hload : host.load env = .ok (.ok pkgEnv))
      (hdeps : pkgEnv.dependencies = []) :
      Loads host levels st env (st.addStandard pkgEnv)
  | late {pkgEnv : LoadedEnv} (hnew : st.envLoaded env = false)
      (hload : host.load env = .ok (.ok pkgEnv))
      (hdeps : pkgEnv.dependencies ≠ []) (hdepth : 31 ≤ st.depth) :
      Loads host levels st env (st.enter.addStandard pkgEnv)
  | followed {pkgEnv : LoadedEnv} {st₁ : Constructor}
      (hnew : st.envLoaded env = false)
      (hload : host.load env = .ok (.ok pkgEnv))
      (hdeps : pkgEnv.dependencies ≠ []) (hdepth : st.depth < 31)
      (hfold : pkgEnv.dependencies.foldlM (loadOneEnv host levels) st.enter =
        .ok st₁) :
      Loads host levels st env (st₁.addRequires pkgEnv)

/-- How `loadOneEnv` can stop. -/
inductive Stops (host : VenvHost) (levels : Nat) (st : Constructor)
    (env : WString) : Stop → Prop where
  | thrown {ec : ErrorCode} (hnew : st.envLoaded env = false)
      (hload : host.load env = .error ec) : Stops host levels st env (.thrown ec)
  | refused {ec : ErrorCode} (hnew : st.envLoaded env = false)
      (hload : host.load env = .ok (.error ec)) (hdepth : 1 < st.depth) :
      Stops host levels st env (.refused ec)
  | below {pkgEnv : LoadedEnv} {stop : Stop} (hnew : st.envLoaded env = false)
      (hload : host.load env = .ok (.ok pkgEnv))
      (hdeps : pkgEnv.dependencies ≠ []) (hdepth : st.depth < 31)
      (hfold : pkgEnv.dependencies.foldlM (loadOneEnv host levels) st.enter =
        .error stop) :
      Stops host levels st env stop

theorem loadOneEnv_cases (host : VenvHost) (levels : Nat) (st : Constructor)
    (env : WString) :
    (∃ st', loadOneEnv host (levels + 1) st env = .ok st' ∧
        Loads host levels st env st') ∨
      ∃ stop, loadOneEnv host (levels + 1) st env = .error stop ∧
        Stops host levels st env stop := by
  rw [loadOneEnv]
  cases hnew : st.envLoaded env with
  | true =>
      rw [if_pos rfl]
      exact .inl ⟨st, rfl, .known hnew⟩
  | false =>
      rw [if_neg Bool.false_ne_true]
      cases hload : host.load env with
      | error ec => exact .inr ⟨_, rfl, .thrown hnew hload⟩
      | ok found =>
          cases found with
          | error ec =>
              dsimp only
              by_cases hdepth : st.depth ≤ 1
              · rw [if_pos hdepth]
                exact .inl ⟨st, rfl, .absent hload hdepth⟩
              · rw [if_neg hdepth]
                exact .inr ⟨_, rfl, .refused hnew hload (Nat.not_le.mp hdepth)⟩
          | ok pkgEnv =>
              dsimp only
              by_cases hdeps : pkgEnv.dependencies = []
              · rw [if_pos (List.isEmpty_iff.mpr hdeps)]
                exact .inl ⟨_, rfl, .leaf hnew hload hdeps⟩
              rw [if_neg (mt List.isEmpty_iff.mp hdeps)]
              by_cases hdepth : st.depth < 31
              · rw [if_neg (by omega)]
                cases hfold : pkgEnv.dependencies.foldlM
                    (loadOneEnv host levels) st.enter with
                | error stop =>
                    exact .inr ⟨_, rfl, .below hnew hload hdeps hdepth hfold⟩
                | ok st₁ =>
                    exact .inl ⟨_, rfl, .followed hnew hload hdeps hdepth hfold⟩
              · rw [if_pos (by omega)]
                exact .inl ⟨_, rfl,
                  .late hnew hload hdeps (Nat.not_lt.mp hdepth)⟩

theorem Loads.of_ok {host : VenvHost} {levels : Nat} {st st' : Constructor}
    {env : WString} (h : loadOneEnv host (levels + 1) st env = .ok st') :
    Loads host levels st env st' := by
  rcases loadOneEnv_cases host levels st env with ⟨_, h', hloads⟩ | ⟨_, h', -⟩
  · rw [h] at h'
    cases h'
    exact hloads
  · rw [h] at h'
    cases h'

theorem Stops.of_error {host : VenvHost} {levels : Nat} {st : Constructor}
    {env : WString} {stop : Stop}
    (h : loadOneEnv host (levels + 1) st env = .error stop) :
    Stops host levels st env stop := by
  rcases loadOneEnv_cases host levels st env with ⟨_, h', -⟩ | ⟨_, h', hstops⟩
  · rw [h] at h'
    cases h'
  · rw [h] at h'
    cases h'
    exact hstops

/-! ## The recursion ends -/

theorem depth_le_of_loadOneEnv {host : VenvHost} {levels : Nat}
    {st st' : Constructor} {env : WString}
    (h : loadOneEnv host levels st env = .ok st') : st.depth ≤ st'.depth := by
  induction levels generalizing st st' env with
  | zero => cases h
  | succ levels ih =>
      cases Loads.of_ok h with
      | known hloaded => exact le_rfl
      | absent hload hdepth => exact le_rfl
      | leaf hnew hload hdeps => exact le_rfl
      | late hnew hload hdeps hdepth => exact Nat.le_succ _
      | @followed pkgEnv st₁ hnew hload hdeps hdepth hfold =>
          have hle : st.enter.depth ≤ st₁.depth :=
            foldlM_invariant (I := fun s => st.enter.depth ≤ s.depth)
              (fun s x s' _ hs hx => le_trans hs (ih hx)) le_rfl hfold
          exact le_trans (Nat.le_succ _) hle

/-- The levels suffice for the packages that may still be followed. -/
structure Suffices (levels : Nat) (st : Constructor) : Prop where
  pos : 0 < levels
  enough : 32 ≤ levels + st.depth

theorem Suffices.of_load {host : VenvHost} {levels levels' : Nat}
    {st st' : Constructor} {env : WString} (h : Suffices levels st)
    (hload : loadOneEnv host levels' st env = .ok st') :
    Suffices levels st' := by
  have hle := depth_le_of_loadOneEnv hload
  exact ⟨h.pos, le_trans h.enough (Nat.add_le_add_left hle levels)⟩

theorem Suffices.enter {levels : Nat} {st : Constructor}
    (h : Suffices (levels + 1) st) (hdepth : st.depth < 31) :
    Suffices levels st.enter := by
  have henough := h.enough
  constructor
  · omega
  · change 32 ≤ levels + (st.depth + 1)
    omega

theorem loadOneEnv_ne_exhausted {host : VenvHost} {levels : Nat}
    {st : Constructor} (h : Suffices levels st) (env : WString) :
    loadOneEnv host levels st env ≠ .error .exhausted := by
  induction levels generalizing st env with
  | zero => exact absurd h.pos (lt_irrefl 0)
  | succ levels ih =>
      intro hstop
      cases Stops.of_error hstop with
      | below hnew hload hdeps hdepth hfold =>
          obtain ⟨st₁, x, -, hsuffices, hfail⟩ := foldlM_error
            (fun s x s' _ hs hx => Suffices.of_load hs hx) (h.enter hdepth)
            hfold
          exact ih hsuffices x hfail

theorem loadOneEnv_congr {host : VenvHost} {levels levels' : Nat}
    {st : Constructor} (h : Suffices levels st) (h' : Suffices levels' st)
    (env : WString) :
    loadOneEnv host levels st env = loadOneEnv host levels' st env := by
  induction levels generalizing levels' st env with
  | zero => exact absurd h.pos (lt_irrefl 0)
  | succ levels ih =>
      cases levels' with
      | zero => exact absurd h'.pos (lt_irrefl 0)
      | succ levels' =>
          rw [loadOneEnv, loadOneEnv]
          by_cases hdepth : st.depth < 31
          · have hfold : ∀ dependencies : List WString,
                dependencies.foldlM (loadOneEnv host levels) st.enter =
                  dependencies.foldlM (loadOneEnv host levels') st.enter := by
              intro dependencies
              refine foldlM_congr
                (I := fun s => Suffices levels s ∧ Suffices levels' s) ?_
                ⟨h.enter hdepth, h'.enter hdepth⟩ ?_
              · intro s x s' _ hs hx
                exact ⟨hs.1.of_load hx, hs.2.of_load hx⟩
              · intro s x _ hs
                exact ih hs.1 hs.2 x
            simp only [hfold]
          · have hlate : 31 < st.depth + 1 := by omega
            simp only [if_pos hlate]

/-! ## What is flushed -/

/-- Names are the same without regard to case. -/
def envKey (e : LoadedEnv) : WString :=
  e.name.map asciiToLower

theorem known_iff (available : List LoadedEnv) (e : LoadedEnv) :
    (available.any fun ae => equalsIgnoreCase ae.name e.name) = true ↔
      envKey e ∈ available.map envKey := by
  rw [List.any_eq_true, List.mem_map]
  constructor
  · rintro ⟨ae, hmem, hequal⟩
    exact ⟨ae, hmem, equalsIgnoreCase_iff.mp hequal⟩
  · rintro ⟨ae, hmem, hequal⟩
    exact ⟨ae, hmem, equalsIgnoreCase_iff.mpr hequal⟩

theorem flushStep_available (host : VenvHost) (f : Flushing) (e : LoadedEnv) :
    (flushStep host f e).available = addFirst envKey f.available e := by
  unfold flushStep addFirst
  by_cases hknown : envKey e ∈ f.available.map envKey
  · rw [if_pos ((known_iff _ _).mpr hknown), if_pos hknown]
  · rw [if_neg (mt (known_iff _ _).mp hknown), if_neg hknown]
    rfl

theorem foldl_flushStep_available (host : VenvHost) (envs : List LoadedEnv)
    (f : Flushing) :
    (envs.foldl (flushStep host) f).available =
      envs.foldl (addFirst envKey) f.available := by
  induction envs generalizing f with
  | nil => rfl
  | cons e envs ih =>
      rw [List.foldl_cons, ih, flushStep_available, List.foldl_cons]

/-- `flushEnv` flushes the first environment for each name. -/
theorem flushEnv_available (host : VenvHost) (st : Constructor)
    (sm : Simulator) :
    (flushEnv host st sm).available =
      firsts envKey (st.standardEnvs ++ st.requiresEnvs) := by
  rw [firsts, List.foldl_append]
  change (st.requiresEnvs.foldl (flushStep host)
    (st.standardEnvs.foldl (flushStep host) _)).available = _
  rw [foldl_flushStep_available, foldl_flushStep_available]

theorem suffices_initial {levels : Nat} (h : 32 ≤ levels) :
    Suffices levels {} :=
  ⟨lt_of_lt_of_le (by decide) h, le_trans h (Nat.le_add_right _ _)⟩

theorem loadEnvs_congr (host : VenvHost) {levels levels' : Nat}
    (h : 32 ≤ levels) (h' : 32 ≤ levels') (envs : List WString) :
    loadEnvs host levels envs = loadEnvs host levels' envs := by
  refine foldlM_congr (I := fun s => Suffices levels s ∧ Suffices levels' s) ?_
    ⟨suffices_initial h, suffices_initial h'⟩ ?_
  · intro s x s' _ hs hx
    exact ⟨hs.1.of_load hx, hs.2.of_load hx⟩
  · intro s x _ hs
    exact loadOneEnv_congr hs.1 hs.2 x

theorem loadEnvs_ne_exhausted (host : VenvHost) {levels : Nat}
    (h : 32 ≤ levels) (envs : List WString) :
    loadEnvs host levels envs ≠ .error .exhausted := by
  intro hstop
  obtain ⟨st, x, -, hsuffices, hfail⟩ := foldlM_error
    (fun s x s' _ hs hx => Suffices.of_load hs hx) (suffices_initial h) hstop
  exact loadOneEnv_ne_exhausted hsuffices x hfail

theorem initializeEnvs_cases {host : VenvHost} {levels : Nat}
    {envs : List WString} {sm : Simulator} {f : Flushing}
    (h : initializeEnvs host levels envs sm = .ok f) :
    envs = [] ∧ f = { sm } ∨
      ∃ st, loadEnvs host levels envs = .ok st ∧ f = flushEnv host st sm := by
  unfold initializeEnvs at h
  by_cases hempty : envs = []
  · rw [if_pos (List.isEmpty_iff.mpr hempty)] at h
    cases h
    exact .inl ⟨hempty, rfl⟩
  · rw [if_neg (mt List.isEmpty_iff.mp hempty)] at h
    cases hload : loadEnvs host levels envs with
    | error stop =>
        rw [hload] at h
        cases h
    | ok st =>
        rw [hload] at h
        cases h
        exact .inr ⟨st, rfl, rfl⟩

/-- `InitializeEnvs` always comes to its end, whatever the packages depend on,
and no environment is flushed twice. -/
theorem initializeEnvs_ends (host : VenvHost) (envs : List WString)
    (sm : Simulator) :
    ∃ result, (∀ levels, 32 ≤ levels →
        initializeEnvs host levels envs sm = result) ∧
      result ≠ .error .exhausted ∧
      ∀ f, result = .ok f → f.available.Pairwise
        fun a b => equalsIgnoreCase a.name b.name = false := by
  refine ⟨initializeEnvs host 32 envs sm, ?_, ?_, ?_⟩
  · intro levels h
    unfold initializeEnvs
    rw [loadEnvs_congr host h le_rfl]
  · unfold initializeEnvs
    split
    · simp
    · cases hload : loadEnvs host 32 envs with
      | ok st => simp
      | error stop =>
          rintro ⟨⟩
          exact loadEnvs_ne_exhausted host le_rfl envs hload
  · intro f h
    rcases initializeEnvs_cases h with ⟨-, rfl⟩ | ⟨st, -, rfl⟩
    · exact List.Pairwise.nil
    · rw [flushEnv_available]
      have hnodup := nodup_keys_firsts envKey
        (st.standardEnvs ++ st.requiresEnvs)
      refine (List.pairwise_map.mp hnodup).imp fun hkeys => ?_
      rw [← Bool.not_eq_true, equalsIgnoreCase_iff]
      exact hkeys

end Baulk.Env
