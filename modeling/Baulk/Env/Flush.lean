import Baulk.Env.LoadOrder

/-!
# What is written to the simulator

`flushEnv` collects the folders of the flushed packages in three lists, and sets
the variables of each package on the way.  `PATH` is extended after the loops.
`LIB` and `INCLUDE` are extended before them, when their lists are still empty.
-/

namespace Baulk.Env

open Pkg Support

/-! ## Variables -/

namespace Simulator

theorem lookupEnv_setEnv (sm : Simulator) (key value k : WString) :
    (sm.setEnv key value true).lookupEnv k =
      if equalsIgnoreCase key k then some value else sm.lookupEnv k := by
  -- `hsame` is what a key that is found says about the one that is set
  have hsame : equalsIgnoreCase key k = true → ∀ entry : WString × WString,
      equalsIgnoreCase entry.1 key = equalsIgnoreCase entry.1 k :=
    fun h entry => equalsIgnoreCase_congr h entry.1
  unfold setEnv lookupEnv
  by_cases hany : (sm.envmap.any fun entry => equalsIgnoreCase entry.1 key) = true
  · rw [if_pos hany, if_pos rfl]
    dsimp only
    rw [List.find?_map]
    have hcomp : ((fun entry : WString × WString => equalsIgnoreCase entry.1 k) ∘
        fun entry => if equalsIgnoreCase entry.1 key = true then (entry.1, value)
          else entry) = fun entry => equalsIgnoreCase entry.1 k := by
      funext entry
      dsimp only [Function.comp_apply]
      split <;> rfl
    rw [hcomp]
    by_cases hkey : equalsIgnoreCase key k = true
    · rw [if_pos hkey]
      simp only [hsame hkey] at hany ⊢
      obtain ⟨entry, hmem, hentry⟩ := List.any_eq_true.mp hany
      cases hfind : sm.envmap.find? fun entry => equalsIgnoreCase entry.1 k with
      | none => exact absurd hentry (List.find?_eq_none.mp hfind entry hmem)
      | some found =>
          have hfound := List.find?_some hfind
          simp only [Option.map_some, hfound, if_true]
    · rw [if_neg hkey]
      cases hfind : sm.envmap.find? fun entry => equalsIgnoreCase entry.1 k with
      | none => rfl
      | some found =>
          have hfound := List.find?_some hfind
          have hother : ¬ equalsIgnoreCase found.1 key = true := by
            intro h
            rw [equalsIgnoreCase_iff] at h hfound hkey
            exact hkey (h.symm.trans hfound)
          simp only [Option.map_some, if_neg hother]
  · rw [if_neg hany]
    dsimp only
    rw [List.find?_append]
    by_cases hkey : equalsIgnoreCase key k = true
    · simp only [hsame hkey] at hany
      have hnone : (sm.envmap.find? fun entry => equalsIgnoreCase entry.1 k) =
          none := by
        rw [List.find?_eq_none]
        intro entry hmem hentry
        exact hany (List.any_eq_true.mpr ⟨entry, hmem, hentry⟩)
      rw [hnone, if_pos hkey]
      simp [hkey]
    · rw [if_neg hkey]
      simp [hkey]

theorem paths_setEnv (sm : Simulator) (key value : WString) (force : Bool) :
    (sm.setEnv key value force).paths = sm.paths := by
  unfold setEnv
  split
  · split <;> rfl
  · rfl

theorem lookupEnv_congr {k k' : WString} (h : equalsIgnoreCase k k' = true)
    (sm : Simulator) : sm.lookupEnv k = sm.lookupEnv k' := by
  unfold lookupEnv
  simp only [equalsIgnoreCase_congr h]

end Simulator

/-- The texts `KEY=VALUE` with a key. -/
def setsKey (key nv : WString) : Bool :=
  equalsIgnoreCase (Simulator.splitEnv nv).1 key

/-- The value that the last of some texts `KEY=VALUE` gives to a key. -/
def assigned (nvs : List WString) (key : WString) : Option WString :=
  (nvs.reverse.find? (setsKey key)).map fun nv => (Simulator.splitEnv nv).2

theorem assigned_append (nvs nvs' : List WString) (key : WString) :
    assigned (nvs ++ nvs') key = (assigned nvs' key).or (assigned nvs key) := by
  unfold assigned
  rw [List.reverse_append, List.find?_append, Option.map_or]

theorem assigned_eq_none {nvs : List WString} {key : WString}
    (h : ∀ nv ∈ nvs, setsKey key nv = false) : assigned nvs key = none := by
  unfold assigned
  rw [Option.map_eq_none_iff, List.find?_eq_none]
  intro nv hnv
  rw [h nv (List.mem_reverse.mp hnv)]
  exact Bool.false_ne_true

theorem exists_assigned {nvs : List WString} {key nv : WString} (hnv : nv ∈ nvs)
    (hkey : setsKey key nv = true) :
    ∃ nv' ∈ nvs, setsKey key nv' = true ∧
      assigned nvs key = some (Simulator.splitEnv nv').2 := by
  unfold assigned
  cases hfind : nvs.reverse.find? (setsKey key) with
  | none =>
      exact absurd hkey
        (List.find?_eq_none.mp hfind nv (List.mem_reverse.mpr hnv))
  | some nv' =>
      refine ⟨nv', ?_, List.find?_some hfind, rfl⟩
      exact List.mem_reverse.mp (List.mem_of_find?_eq_some hfind)

/-- `PutEnv`, of all texts in turn. -/
def putAll (sm : Simulator) (nvs : List WString) : Simulator :=
  nvs.foldl (fun sm nv => sm.putEnv nv true) sm

theorem lookupEnv_putAll (sm : Simulator) (nvs : List WString) (key : WString) :
    (putAll sm nvs).lookupEnv key =
      (assigned nvs key).or (sm.lookupEnv key) := by
  induction nvs using List.reverseRecOn with
  | nil => rfl
  | append_singleton nvs nv ih =>
      rw [putAll, List.foldl_append, List.foldl_cons, List.foldl_nil]
      change ((putAll sm nvs).putEnv nv true).lookupEnv key = _
      rw [Simulator.putEnv, Simulator.lookupEnv_setEnv, ih, assigned_append]
      by_cases hkey : setsKey key nv = true
      · rw [setsKey] at hkey
        rw [if_pos hkey]
        simp [assigned, setsKey, hkey]
      · rw [setsKey] at hkey
        rw [if_neg hkey]
        simp [assigned, setsKey, hkey]

theorem paths_putAll (sm : Simulator) (nvs : List WString) :
    (putAll sm nvs).paths = sm.paths := by
  induction nvs generalizing sm with
  | nil => rfl
  | cons nv nvs ih =>
      exact (ih _).trans (Simulator.paths_setEnv _ _ _ _)

/-! ## The order of the effects -/

/-- The packages that are flushed, in this order. -/
def Constructor.flushed (st : Constructor) : List LoadedEnv :=
  firsts envKey (st.standardEnvs ++ st.requiresEnvs)

section Packages

variable (host : VenvHost)

/-- The texts `KEY=VALUE` of a package, expanded with its own variables. -/
def expandedEnvs (e : LoadedEnv) : List WString :=
  e.envs.map (packageSimulator host e.name).expandEnv

def expandedPaths (e : LoadedEnv) : List WString :=
  e.paths.map (packageSimulator host e.name).pathExpand

def expandedIncludes (e : LoadedEnv) : List WString :=
  e.includes.map (packageSimulator host e.name).pathExpand

def expandedLibs (e : LoadedEnv) : List WString :=
  e.libs.map (packageSimulator host e.name).pathExpand

/-- The loops flush the first environment of each name, and nothing else. -/
theorem foldl_flushStep (sm : Simulator) (envs : List LoadedEnv) :
    envs.foldl (flushStep host) { sm } =
      (firsts envKey envs).foldl (flushOnceEnv host) { sm } := by
  induction envs using List.reverseRecOn with
  | nil => rfl
  | append_singleton envs e ih =>
      have havailable := foldl_flushStep_available host envs { sm }
      rw [List.foldl_append, List.foldl_cons, List.foldl_nil, firsts_concat,
        flushStep]
      have hiff := known_iff (envs.foldl (flushStep host) { sm }).available e
      rw [havailable] at hiff
      change _ ↔ envKey e ∈ (firsts envKey envs).map envKey at hiff
      rw [mem_keys_firsts] at hiff
      rw [havailable]
      by_cases hknown : envKey e ∈ envs.map envKey
      · rw [if_pos (hiff.mpr hknown), if_pos hknown, ih]
      · rw [if_neg (mt hiff.mp hknown), if_neg hknown, ih, List.foldl_append,
          List.foldl_cons, List.foldl_nil]

theorem foldl_flushOnceEnv (envs : List LoadedEnv) (f : Flushing) :
    envs.foldl (flushOnceEnv host) f =
      { sm := putAll f.sm (envs.flatMap (expandedEnvs host))
        paths := f.paths ++ envs.flatMap (expandedPaths host)
        includes := f.includes ++ envs.flatMap (expandedIncludes host)
        libs := f.libs ++ envs.flatMap (expandedLibs host)
        available := f.available ++ envs } := by
  induction envs generalizing f with
  | nil => simp [putAll]
  | cons e envs ih =>
      rw [List.foldl_cons, ih]
      simp [flushOnceEnv, putAll, expandedEnvs, expandedPaths, expandedIncludes,
        expandedLibs]

theorem flushEnv_sm (st : Constructor) (sm : Simulator) :
    (flushEnv host st sm).sm =
      (putAll sm (st.flushed.flatMap (expandedEnvs host))).pathPushFront
        (st.flushed.flatMap (expandedPaths host)) := by
  have hloops : st.requiresEnvs.foldl (flushStep host)
      (st.standardEnvs.foldl (flushStep host) { sm }) =
      st.flushed.foldl (flushOnceEnv host) { sm } := by
    rw [← List.foldl_append, foldl_flushStep, Constructor.flushed]
  -- the two lists are empty when they are looked at
  change (st.requiresEnvs.foldl (flushStep host)
      (st.standardEnvs.foldl (flushStep host) { sm })).sm.pathPushFront
    (st.requiresEnvs.foldl (flushStep host)
      (st.standardEnvs.foldl (flushStep host) { sm })).paths = _
  rw [hloops, foldl_flushOnceEnv, List.nil_append]

/-! ## What flushing is for -/

/-- The value of a list variable with more values in front of it. -/
def prepended (values : List WString) (prior : WString) : WString :=
  if values = [] then prior
  else if prior = [] then joinEnv values
  else joinEnv values ++ wide ";" ++ prior

/-- No package sets a key. -/
def SetsNone (packages : List LoadedEnv) (key : WString) : Prop :=
  ∀ e ∈ packages, ∀ nv ∈ expandedEnvs host e, setsKey key nv = false

/-- The folders of the packages come before those of the simulator, and the
variables of each package are set unless a later one sets them. -/
structure Flushed (packages : List LoadedEnv) (before after : Simulator) :
    Prop where
  lib : after.getEnv (wide "LIB") =
    prepended (packages.flatMap (expandedLibs host)) (before.getEnv (wide "LIB"))
  includes : after.getEnv (wide "INCLUDE") =
    prepended (packages.flatMap (expandedIncludes host))
      (before.getEnv (wide "INCLUDE"))
  path : after.paths = packages.flatMap (expandedPaths host) ++ before.paths
  keys : ∀ a e b, packages = a ++ e :: b → ∀ nv ∈ expandedEnvs host e,
    SetsNone host b (Simulator.splitEnv nv).1 →
    after.lookupEnv (Simulator.splitEnv nv).1 = some (Simulator.splitEnv nv).2

/-- There is nothing to prepend to a list variable, or the packages set it to
the right value themselves. -/
structure ListSafe (packages : List LoadedEnv) (before : Simulator)
    (key : WString) (values : List WString) : Prop where
  untouched : assigned (packages.flatMap (expandedEnvs host)) key = none →
    values = [] ∨ joinEnv values = [] ∧ before.getEnv key = []
  touched : ∀ v, assigned (packages.flatMap (expandedEnvs host)) key = some v →
    v = prepended values (before.getEnv key)

/-- When the simulator ends up right. -/
structure FlushSafe (packages : List LoadedEnv) (before : Simulator) : Prop where
  lib : ListSafe host packages before (wide "LIB")
    (packages.flatMap (expandedLibs host))
  includes : ListSafe host packages before (wide "INCLUDE")
    (packages.flatMap (expandedIncludes host))
  /-- No package sets a key to two values. -/
  keys : ∀ a e b, packages = a ++ e :: b → ∀ nv ∈ expandedEnvs host e,
    SetsNone host b (Simulator.splitEnv nv).1 →
    ∀ nv' ∈ expandedEnvs host e, setsKey (Simulator.splitEnv nv).1 nv' = true →
      (Simulator.splitEnv nv').2 = (Simulator.splitEnv nv).2

theorem eq_prepended_iff {values : List WString} {prior : WString} :
    prior = prepended values prior ↔
      values = [] ∨ joinEnv values = [] ∧ prior = [] := by
  unfold prepended
  by_cases hvalues : values = []
  · rw [if_pos hvalues]
    exact iff_of_true rfl (.inl hvalues)
  rw [if_neg hvalues]
  by_cases hprior : prior = []
  · rw [if_pos hprior, hprior]
    constructor
    · intro h
      exact .inr ⟨h.symm, rfl⟩
    · rintro (h | h)
      · exact absurd h hvalues
      · exact h.1.symm
  · rw [if_neg hprior]
    apply iff_of_false
    · intro h
      have hlength := congrArg List.length h
      rw [List.length_append, List.length_append] at hlength
      have hsemicolon : (wide ";").length = 1 := rfl
      omega
    · rintro (h | h)
      · exact hvalues h
      · exact hprior h.2

theorem listSafe_iff (packages : List LoadedEnv) (before : Simulator)
    (key : WString) (values : List WString) :
    (putAll before (packages.flatMap (expandedEnvs host))).getEnv key =
        prepended values (before.getEnv key) ↔
      ListSafe host packages before key values := by
  rw [Simulator.getEnv, lookupEnv_putAll]
  cases hassigned : assigned (packages.flatMap (expandedEnvs host)) key with
  | none =>
      rw [Option.none_or]
      constructor
      · intro h
        refine ⟨fun _ => eq_prepended_iff.mp h, ?_⟩
        rw [hassigned]
        simp
      · intro h
        exact eq_prepended_iff.mpr (h.untouched hassigned)
  | some v =>
      rw [Option.some_or, Option.getD_some]
      constructor
      · intro h
        refine ⟨?_, fun v' hv' => ?_⟩
        · rw [hassigned]
          simp
        · rw [hassigned] at hv'
          cases hv'
          exact h
      · intro h
        exact h.touched v hassigned

theorem lookupEnv_last (before : Simulator) {a b : List LoadedEnv}
    {e : LoadedEnv} {nv : WString} (hnv : nv ∈ expandedEnvs host e)
    (hlast : SetsNone host b (Simulator.splitEnv nv).1) :
    ∃ nv' ∈ expandedEnvs host e, setsKey (Simulator.splitEnv nv).1 nv' = true ∧
      (putAll before ((a ++ e :: b).flatMap (expandedEnvs host))).lookupEnv
        (Simulator.splitEnv nv).1 = some (Simulator.splitEnv nv').2 := by
  obtain ⟨nv', hmem, hkey, hassigned⟩ := exists_assigned hnv
    (show setsKey (Simulator.splitEnv nv).1 nv = true from
      equalsIgnoreCase_self _)
  refine ⟨nv', hmem, hkey, ?_⟩
  have hnone : assigned (b.flatMap (expandedEnvs host))
      (Simulator.splitEnv nv).1 = none := by
    apply assigned_eq_none
    intro nv₁ hnv₁
    obtain ⟨e₁, he₁, hmem₁⟩ := List.mem_flatMap.mp hnv₁
    exact hlast e₁ he₁ nv₁ hmem₁
  rw [lookupEnv_putAll, List.flatMap_append, List.flatMap_cons, assigned_append,
    assigned_append, hnone, hassigned]
  rfl

theorem flushEnv_flushed_iff (st : Constructor) (sm : Simulator) :
    Flushed host st.flushed sm (flushEnv host st sm).sm ↔
      FlushSafe host st.flushed sm := by
  rw [flushEnv_sm]
  constructor
  · intro h
    refine ⟨(listSafe_iff host _ _ _ _).mp h.lib,
      (listSafe_iff host _ _ _ _).mp h.includes, ?_⟩
    intro a e b hsplit nv hnv hlast nv' hnv' hkey
    have hvalue := h.keys a e b hsplit nv hnv hlast
    have hlast' : SetsNone host b (Simulator.splitEnv nv').1 := by
      intro e₁ he₁ nv₁ hnv₁
      rw [setsKey, equalsIgnoreCase_congr hkey]
      exact hlast e₁ he₁ nv₁ hnv₁
    have hvalue' := h.keys a e b hsplit nv' hnv' hlast'
    rw [Simulator.lookupEnv_congr hkey, hvalue] at hvalue'
    exact (Option.some.inj hvalue').symm
  · intro h
    refine ⟨(listSafe_iff host _ _ _ _).mpr h.lib,
      (listSafe_iff host _ _ _ _).mpr h.includes, ?_, ?_⟩
    · change _ ++ (putAll sm _).paths = _
      rw [paths_putAll]
    · intro a e b hsplit nv hnv hlast
      obtain ⟨nv', hnv', hkey, hvalue⟩ := lookupEnv_last host sm hnv hlast
      change (putAll sm _).lookupEnv _ = _
      rw [hsplit, hvalue, h.keys a e b hsplit nv hnv hlast nv' hnv' hkey]

end Packages

/-- After `InitializeEnvs` succeeds, the variables are those of the packages in
front of the ones before, exactly if there is nothing for `LIB` and `INCLUDE` or
the packages set these themselves, and no package sets a key twice. -/
theorem initializeEnvs_flushed_iff {host : VenvHost} {levels : Nat}
    {envs : List WString} {st : Constructor}
    (hload : loadEnvs host levels envs = .ok st) (sm : Simulator) :
    ∃ f, initializeEnvs host levels envs sm = .ok f ∧
      f.available = st.flushed ∧
      (Flushed host st.flushed sm f.sm ↔ FlushSafe host st.flushed sm) := by
  obtain ⟨f, hrun, havailable, hsm⟩ := initializeEnvs_of_load hload sm
  refine ⟨f, hrun, havailable, ?_⟩
  rw [hsm]
  exact flushEnv_flushed_iff host st sm

/-! ### One package -/

/-- Every package has the same lock file, with one member. -/
def oneMemberHost (member : Bytes) (values : List WString) : VenvHost where
  lock _ := .ok (Json.null.setMember (narrow "venv")
    (Json.null.setMember member (textArray values)))
  localEnv _ := .error {}
  basePath := wide "C:\\b"

/-- A package with a variable, and a simulator with folders. -/
theorem initializeEnvs_flushed_variable :
    ∃ f, initializeEnvs (oneMemberHost (narrow "env") [wide "K=$BAULK_ROOT"]) 32
        [wide "P"] { paths := [wide "w"], envmap := [(wide "lib", wide "l")] } =
          .ok f ∧
      Flushed (oneMemberHost (narrow "env") [wide "K=$BAULK_ROOT"])
        [{ name := wide "p", envs := [wide "K=$BAULK_ROOT"] }]
        { paths := [wide "w"], envmap := [(wide "lib", wide "l")] } f.sm := by
  have hload : loadEnvs (oneMemberHost (narrow "env") [wide "K=$BAULK_ROOT"]) 32
      [wide "P"] = .ok { standardEnvs :=
        [{ name := wide "p", envs := [wide "K=$BAULK_ROOT"] }] } := by
    rfl
  obtain ⟨f, hrun, -, hiff⟩ := initializeEnvs_flushed_iff hload
    { paths := [wide "w"], envmap := [(wide "lib", wide "l")] }
  refine ⟨f, hrun, hiff.mpr ⟨⟨fun _ => .inl rfl, ?_⟩,
    ⟨fun _ => .inl rfl, ?_⟩, ?_⟩⟩
  · intro v hv
    cases hv
  · intro v hv
    cases hv
  intro a e b hsplit nv hnv _ nv' hnv' _
  obtain rfl : e = { name := wide "p", envs := [wide "K=$BAULK_ROOT"] } := by
    have hmem : e ∈ a ++ e :: b := by simp
    rw [← hsplit] at hmem
    exact List.mem_singleton.mp hmem
  rw [List.mem_singleton.mp hnv, List.mem_singleton.mp hnv']

/-- The folder of a library is not in `LIB`. -/
theorem initializeEnvs_lib_dropped :
    ∃ f, initializeEnvs (oneMemberHost (narrow "lib") [wide "x"]) 32 [wide "P"]
        {} = .ok f ∧
      f.available = [{ name := wide "p", libs := [wide "x"] }] ∧
      ¬ Flushed (oneMemberHost (narrow "lib") [wide "x"]) f.available {} f.sm := by
  have hload : loadEnvs (oneMemberHost (narrow "lib") [wide "x"]) 32
      [wide "P"] = .ok { standardEnvs :=
        [{ name := wide "p", libs := [wide "x"] }] } := by
    rfl
  obtain ⟨f, hrun, havailable, hsm⟩ := initializeEnvs_of_load hload {}
  refine ⟨f, hrun, havailable, ?_⟩
  rw [havailable, hsm]
  intro h
  have hlib : ([] : WString) = wide "x" := h.lib
  cases hlib

end Baulk.Env
