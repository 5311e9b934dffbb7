import Baulk.Env.Constructor
import Baulk.Support.Walk

/-!
# The order of virtual environments

The environment of a package has to come after those of the packages that it
depends on.  `InitializeEnvs` follows the dependencies of the first 31 packages
that have any.  The environments of the others come before all of those, whatever
they depend on.
-/

namespace Baulk.Env

open Pkg Support

/-! ## Dependencies -/

def VenvHost.dependencies (host : VenvHost) (env : WString) : List WString :=
  match host.load env with
  | .ok (.ok pkgEnv) => pkgEnv.dependencies
  | _ => []

/-- Files are found without regard to the case of their names. -/
structure VenvHost.IgnoresCase (host : VenvHost) : Prop where
  lock : ∀ a b, equalsIgnoreCase a b = true →
    (host.lock a).toOption = (host.lock b).toOption
  localEnv : ∀ a b, equalsIgnoreCase a b = true →
    (host.localEnv a).toOption = (host.localEnv b).toOption

/-- The packages that the requested ones depend on, with themselves. -/
inductive Reachable (host : VenvHost) (envs : List WString) : WString → Prop where
  | request {env : WString} (h : env ∈ envs) :
      Reachable host envs (asciiStrToLower env)
  | dependency {env d : WString} (h : Reachable host envs env)
      (hd : d ∈ host.dependencies env) : Reachable host envs d

/-- The requested packages and those that they depend on are installed, and
their dependencies form chains of at most 31 steps. -/
structure Acyclic (host : VenvHost) (envs : List WString) : Prop where
  installed : ∀ env, Reachable host envs env →
    ∃ pkgEnv, host.load env = .ok (.ok pkgEnv)
  chains : ∀ chain : List WString, chain.IsChain
    (fun a b => Reachable host envs a ∧ b ∈ host.dependencies a) →
    chain.length ≤ 32

/-- Every package is flushed once, and after those that it depends on. -/
structure FlushedInOrder (host : VenvHost) (envs : List WString)
    (flushed : List LoadedEnv) : Prop where
  once : ∀ env, Reachable host envs env →
    (flushed.filter fun e => equalsIgnoreCase e.name env).length = 1
  ordered : ∀ a e b, flushed = a ++ e :: b → ∀ d ∈ e.dependencies,
    ∃ e' ∈ a, equalsIgnoreCase e'.name d = true

/-- The names in the order in which they are first met, if the dependencies of
the first 31 packages with dependencies are followed. -/
def metNames (host : VenvHost) (envs : List WString) : List WString :=
  (envs.map asciiStrToLower).foldl (walk host.dependencies 31 32) []

/-- Every other package with dependencies is met after all of these, and none of
them is one of the 31. -/
def LateReady (host : VenvHost) (met : List WString) : Prop :=
  ∀ a env b, met = a ++ env :: b → host.dependencies env ≠ [] →
    env ∉ followed host.dependencies 31 met → ∀ d ∈ host.dependencies env,
      ∃ d' ∈ a, equalsIgnoreCase d' d = true ∧
        d' ∉ followed host.dependencies 31 met

/-! ## Names of packages -/

/-- The same environment under another name. -/
def rename (name : WString) (e : LoadedEnv) : LoadedEnv :=
  { e with name }

theorem loadMembers_rename (jv : Json) (env : LoadedEnv) (name : WString) :
    loadMembers jv (rename name env) =
      (loadMembers jv env).map (rename name) := by
  unfold loadMembers
  cases jv.getPathsChecked (narrow "path") with
  | error ec => rfl
  | ok paths =>
      cases jv.getPathsChecked (narrow "include") with
      | error ec => rfl
      | ok includes =>
          cases jv.getPathsChecked (narrow "lib") with
          | error ec => rfl
          | ok libs => cases jv.getStringsChecked (narrow "env") <;> rfl

theorem loadPackageLocalEnv_rename (jo : Except ErrorCode Json)
    (env : LoadedEnv) (name : WString) :
    loadPackageLocalEnv jo (rename name env) =
      (loadPackageLocalEnv jo env).map (rename name) := by
  cases jo with
  | error ec => rfl
  | ok jv =>
      unfold loadPackageLocalEnv
      dsimp only
      rw [loadMembers_rename]
      cases loadMembers jv env with
      | error ec => rfl
      | ok e => cases jv.getStringsChecked (narrow "replace") <;> rfl

theorem loadPackageEnv_rename (lock localEnv : Except ErrorCode Json)
    (a b : WString) :
    loadPackageEnv lock localEnv b =
      (loadPackageEnv lock localEnv a).map (Except.map (rename b)) := by
  cases lock with
  | error ec => rfl
  | ok jv =>
      have hend : ∀ e, (loadPackageLocalEnv localEnv (rename b e) >>=
            fun env => (return .ok env : Except ErrorCode _)) =
          (loadPackageLocalEnv localEnv e >>= fun env =>
            (return .ok env : Except ErrorCode (Except ErrorCode LoadedEnv))).map
              (Except.map (rename b)) := by
        intro e
        rw [loadPackageLocalEnv_rename]
        cases loadPackageLocalEnv localEnv e <;> rfl
      unfold loadPackageEnv
      dsimp only
      cases jv.subview (narrow "venv") with
      | none => exact hend { name := a }
      | some sv =>
          dsimp only
          have hmembers := loadMembers_rename sv { name := a } b
          change loadMembers sv { name := b } = _ at hmembers
          rw [hmembers]
          cases loadMembers sv { name := a } with
          | error ec => rfl
          | ok e =>
              cases sv.getStringsChecked (narrow "dependencies") with
              | error ec => rfl
              | ok dependencies =>
                  exact hend { e with dependencies := dependencies.getD [] }

theorem name_of_load {host : VenvHost} {env : WString} {pkgEnv : LoadedEnv}
    (h : host.load env = .ok (.ok pkgEnv)) : pkgEnv.name = env := by
  have hsame := loadPackageEnv_rename (host.lock env) (host.localEnv env) env env
  change host.load env = (host.load env).map (Except.map (rename env)) at hsame
  rw [h] at hsame
  have heq : pkgEnv = rename env pkgEnv := by
    injection hsame with hsame
    injection hsame
  rw [heq]
  rfl

theorem dependencies_of_load {host : VenvHost} {env : WString}
    {pkgEnv : LoadedEnv} (h : host.load env = .ok (.ok pkgEnv)) :
    host.dependencies env = pkgEnv.dependencies := by
  rw [VenvHost.dependencies, h]

theorem loadPackageLocalEnv_congr {jo jo' : Except ErrorCode Json}
    (h : jo.toOption = jo'.toOption) (env : LoadedEnv) :
    loadPackageLocalEnv jo env = loadPackageLocalEnv jo' env := by
  cases jo with
  | error ec =>
      cases jo' with
      | error ec' => rfl
      | ok jv => cases h
  | ok jv =>
      cases jo' with
      | error ec' => cases h
      | ok jv' =>
          cases h
          rfl

/-- Packages whose names differ in case only have the same dependencies. -/
theorem dependencies_congr {host : VenvHost} (hcase : host.IgnoresCase)
    {a b : WString} (h : equalsIgnoreCase a b = true) :
    host.dependencies a = host.dependencies b := by
  have hlock := hcase.lock a b h
  have hlocal := hcase.localEnv a b h
  unfold VenvHost.dependencies VenvHost.load
  cases ha : host.lock a with
  | error ec =>
      cases hb : host.lock b with
      | error ec' => rfl
      | ok jv =>
          rw [ha, hb] at hlock
          cases hlock
  | ok jv =>
      cases hb : host.lock b with
      | error ec' =>
          rw [ha, hb] at hlock
          cases hlock
      | ok jv' =>
          rw [ha, hb] at hlock
          cases hlock
          have hload : loadPackageEnv (.ok jv) (host.localEnv b) a =
              loadPackageEnv (.ok jv) (host.localEnv a) a := by
            unfold loadPackageEnv
            simp only [loadPackageLocalEnv_congr hlocal]
          rw [loadPackageEnv_rename _ _ a b, hload]
          cases loadPackageEnv (.ok jv) (host.localEnv a) a with
          | error ec => rfl
          | ok found => cases found <;> rfl

/-! ## Loading along the walk -/

/-- The names of the loaded packages. -/
def Constructor.names (st : Constructor) : List WString :=
  (st.standardEnvs ++ st.requiresEnvs).map LoadedEnv.name

theorem envLoaded_iff {st : Constructor} {env : WString} :
    st.envLoaded env = true ↔ env ∈ st.names := by
  simp [Constructor.envLoaded, Constructor.names]

theorem not_mem_names {st : Constructor} {env : WString}
    (h : st.envLoaded env = false) : env ∉ st.names := by
  intro hmem
  rw [envLoaded_iff.mpr hmem] at h
  cases h

/-- The state of a `Constructor` and the names that were met, while the packages
of the stack are loaded. -/
structure Follows (host : VenvHost) (st : Constructor)
    (met stack : List WString) : Prop where
  mem : ∀ x, x ∈ met ↔ x ∈ st.names ∨ x ∈ stack
  depth : st.depth = (bearing host.dependencies met).length
  standard : st.standardEnvs.map LoadedEnv.name =
    met.filter fun n => n ∉ followed host.dependencies 31 met
  loaded : ∀ e ∈ st.standardEnvs ++ st.requiresEnvs,
    host.load e.name = .ok (.ok e)
  ready : ∀ a e b, st.requiresEnvs = a ++ e :: b → ∀ d ∈ e.dependencies,
    d ∈ st.standardEnvs.map LoadedEnv.name ∨ d ∈ a.map LoadedEnv.name

section Following

variable {host : VenvHost} {st : Constructor} {met stack : List WString}
  {pkgEnv : LoadedEnv}

theorem filter_concat {met kept kept' : List WString} {env : WString}
    (h : ∀ x ∈ met, x ∉ kept' ↔ x ∉ kept) :
    ((met ++ [env]).filter fun n => n ∉ kept') =
      (met.filter fun n => n ∉ kept) ++ if env ∈ kept' then [] else [env] := by
  rw [List.filter_append]
  congr 1
  · apply List.filter_congr
    intro x hx
    exact decide_eq_decide.mpr (h x hx)
  · by_cases henv : env ∈ kept'
    · simp [henv]
    · simp [henv]

theorem Follows.addStandard (h : Follows host st met stack)
    (hload : host.load pkgEnv.name = .ok (.ok pkgEnv))
    (hnew : pkgEnv.name ∉ met) {st' : Constructor}
    (hstandard : st'.standardEnvs = st.standardEnvs ++ [pkgEnv])
    (hrequires : st'.requiresEnvs = st.requiresEnvs)
    (hdepth : st'.depth =
      (bearing host.dependencies (met ++ [pkgEnv.name])).length)
    (hfollowed : followed host.dependencies 31 (met ++ [pkgEnv.name]) =
      followed host.dependencies 31 met) :
    Follows host st' (met ++ [pkgEnv.name]) stack where
  mem x := by
    rw [List.mem_append, h.mem, List.mem_singleton, Constructor.names,
      Constructor.names, hstandard, hrequires]
    simp only [List.map_append, List.mem_append, List.map_singleton,
      List.mem_singleton]
    tauto
  depth := hdepth
  standard := by
    rw [hstandard, List.map_append, h.standard, hfollowed,
      filter_concat fun x _ => Iff.rfl,
      if_neg fun hmem => hnew (mem_of_mem_followed hmem)]
    rfl
  loaded e he := by
    rw [hstandard, hrequires, List.append_assoc, List.mem_append,
      List.singleton_append, List.mem_cons] at he
    rcases he with he | rfl | he
    · exact h.loaded e (List.mem_append_left _ he)
    · exact hload
    · exact h.loaded e (List.mem_append_right _ he)
  ready a e b heq d hd := by
    rw [hrequires] at heq
    rw [hstandard, List.map_append, List.mem_append]
    rcases h.ready a e b heq d hd with hmem | hmem
    · exact .inl (.inl hmem)
    · exact .inr hmem

/-- A package whose dependencies are followed goes to the stack. -/
theorem Follows.enter (h : Follows host st met stack) {env : WString}
    (hdeps : host.dependencies env ≠ []) (hnew : env ∉ met)
    (hdepth : st.depth < 31) :
    Follows host st.enter (met ++ [env]) (env :: stack) where
  mem x := by
    rw [List.mem_append, h.mem, List.mem_singleton, List.mem_cons]
    change (x ∈ st.names ∨ _) ∨ _ ↔ x ∈ st.names ∨ _
    tauto
  depth := by
    rw [bearing_concat_of_ne hdeps, List.length_append, ← h.depth]
    rfl
  standard := by
    have hlt := hdepth
    rw [h.depth] at hlt
    rw [followed_concat_of_lt hdeps hlt]
    change st.standardEnvs.map LoadedEnv.name = _
    rw [h.standard, filter_concat, if_pos (by simp), List.append_nil]
    intro x hx
    rw [List.mem_append, List.mem_singleton, or_iff_left]
    rintro rfl
    exact hnew hx
  loaded := h.loaded
  ready := h.ready

/-- When its dependencies are loaded, it leaves the stack. -/
theorem Follows.addRequires {env : WString}
    (h : Follows host st met (env :: stack))
    (hload : host.load env = .ok (.ok pkgEnv))
    (hdeps : ∀ d ∈ pkgEnv.dependencies, d ∈ st.names) :
    Follows host (st.addRequires pkgEnv) met stack where
  mem x := by
    have hname := name_of_load hload
    rw [h.mem, Constructor.names, Constructor.names, Constructor.addRequires,
      List.mem_cons]
    simp only [List.map_append, List.mem_append, List.map_singleton,
      List.mem_singleton, hname]
    tauto
  depth := h.depth
  standard := h.standard
  loaded e he := by
    change e ∈ st.standardEnvs ++ (st.requiresEnvs ++ [pkgEnv]) at he
    rw [← List.append_assoc, List.mem_append, List.mem_singleton] at he
    rcases he with he | rfl
    · exact h.loaded e he
    · rwa [name_of_load hload]
  ready a e b heq d hd := by
    change st.requiresEnvs ++ [pkgEnv] = a ++ e :: b at heq
    change d ∈ st.standardEnvs.map LoadedEnv.name ∨ _
    rcases List.eq_nil_or_concat b with rfl | ⟨b, e', rfl⟩
    · obtain ⟨rfl, hlast⟩ := List.append_inj' heq rfl
      have hlast : pkgEnv = e := List.singleton_inj.mp hlast
      have hmem := hdeps d (hlast ▸ hd)
      rwa [Constructor.names, List.map_append, List.mem_append] at hmem
    · rw [List.concat_eq_append, ← List.cons_append, ← List.append_assoc] at heq
      obtain ⟨heq, -⟩ := List.append_inj' heq rfl
      exact h.ready a e b heq d hd

end Following

theorem mem_names_addStandard {st : Constructor} {e : LoadedEnv}
    {x : WString} :
    x ∈ (st.addStandard e).names ↔ x ∈ st.names ∨ x = e.name := by
  simp only [Constructor.names, Constructor.addStandard, List.map_append,
    List.mem_append, List.map_singleton, List.mem_singleton]
  tauto

theorem mem_names_addRequires {st : Constructor} {e : LoadedEnv}
    {x : WString} :
    x ∈ (st.addRequires e).names ↔ x ∈ st.names ∨ x = e.name := by
  simp only [Constructor.names, Constructor.addRequires, List.map_append,
    List.mem_append, List.map_singleton, List.mem_singleton]
  tauto

theorem Follows.loadAll {host : VenvHost} {levels : Nat}
    {stack list : List WString}
    (hstep : ∀ st st' met d, d ∈ list → Follows host st met stack →
      loadOneEnv host levels st d = .ok st' →
      Follows host st' (walk host.dependencies 31 levels met d) stack ∧
        d ∈ st'.names ∧ ∀ x ∈ st.names, x ∈ st'.names)
    {st st' : Constructor} {met : List WString}
    (h : Follows host st met stack)
    (hrun : list.foldlM (loadOneEnv host levels) st = .ok st') :
    Follows host st' (list.foldl (walk host.dependencies 31 levels) met)
        stack ∧
      (∀ d ∈ list, d ∈ st'.names) ∧ ∀ x ∈ st.names, x ∈ st'.names := by
  induction list generalizing st met with
  | nil =>
      cases hrun
      exact ⟨h, fun d hd => absurd hd List.not_mem_nil, fun x hx => hx⟩
  | cons d list ih =>
      obtain ⟨st₁, hd, hlist⟩ := foldlM_cons_ok_iff.mp hrun
      obtain ⟨h₁, hmem, hkept⟩ := hstep st st₁ met d List.mem_cons_self h hd
      obtain ⟨h', hall, hkept'⟩ := ih
        (fun st st' met x hx => hstep st st' met x (List.mem_cons_of_mem d hx))
        h₁ hlist
      refine ⟨h', ?_, fun x hx => hkept' x (hkept x hx)⟩
      intro x hx
      rcases List.mem_cons.mp hx with rfl | hx
      · exact hkept' x hmem
      · exact hall x hx

theorem Follows.load {host : VenvHost} {envs : List WString}
    (hinstalled : ∀ env, Reachable host envs env →
      ∃ pkgEnv, host.load env = .ok (.ok pkgEnv))
    {rank : WString → Nat}
    (hrank : ∀ a b, Reachable host envs a ∧ b ∈ host.dependencies a →
      rank b < rank a)
    {levels : Nat} {st st' : Constructor} {met stack : List WString}
    {env : WString} (h : Follows host st met stack)
    (henv : Reachable host envs env) (hstack : ∀ s ∈ stack, rank env < rank s)
    (hrun : loadOneEnv host levels st env = .ok st') :
    Follows host st' (walk host.dependencies 31 levels met env) stack ∧
      env ∈ st'.names ∧ ∀ x ∈ st.names, x ∈ st'.names := by
  induction levels generalizing st st' met stack env with
  | zero => cases hrun
  | succ levels ih =>
      have hfresh : st.envLoaded env = false → env ∉ met := by
        intro hnew hmem
        rcases (h.mem env).mp hmem with hmem | hmem
        · exact not_mem_names hnew hmem
        · exact lt_irrefl _ (hstack env hmem)
      cases Loads.of_ok hrun with
      | known hloaded =>
          have hmem := envLoaded_iff.mp hloaded
          rw [walk, if_pos ((h.mem env).mpr (.inl hmem))]
          exact ⟨h, hmem, fun x hx => hx⟩
      | absent hload hdepth =>
          obtain ⟨pkgEnv, hpkgEnv⟩ := hinstalled env henv
          rw [hload] at hpkgEnv
          cases hpkgEnv
      | @leaf pkgEnv hnew hload hdeps =>
          obtain rfl := name_of_load hload
          have hnone : host.dependencies pkgEnv.name = [] := by
            rw [dependencies_of_load hload, hdeps]
          have hwalk : walk host.dependencies 31 (levels + 1) met pkgEnv.name =
              met ++ [pkgEnv.name] := by
            rw [walk, if_neg (hfresh hnew), hnone]
            exact ite_self _
          rw [hwalk]
          refine ⟨h.addStandard hload (hfresh hnew) rfl rfl ?_
            (followed_concat_of_empty hnone), ?_, ?_⟩
          · rw [bearing_concat_of_empty hnone]
            exact h.depth
          · exact mem_names_addStandard.mpr (.inr rfl)
          · intro x hx
            exact mem_names_addStandard.mpr (.inl hx)
      | @late pkgEnv hnew hload hdeps hdepth =>
          obtain rfl := name_of_load hload
          have hsome : host.dependencies pkgEnv.name ≠ [] := by
            rwa [dependencies_of_load hload]
          rw [h.depth] at hdepth
          rw [walk, if_neg (hfresh hnew), if_neg (Nat.not_lt.mpr hdepth)]
          refine ⟨h.addStandard hload (hfresh hnew) rfl rfl ?_
            (followed_concat_of_le hdepth), ?_, ?_⟩
          · rw [bearing_concat_of_ne hsome, List.length_append, ← h.depth]
            rfl
          · exact mem_names_addStandard.mpr (.inr rfl)
          · intro x hx
            exact mem_names_addStandard.mpr (.inl hx)
      | @followed pkgEnv st₁ hnew hload hdeps hdepth hfold =>
          obtain rfl := name_of_load hload
          have hsame := dependencies_of_load hload
          rw [← hsame] at hdeps hfold
          have hlt := hdepth
          rw [h.depth] at hlt
          rw [walk, if_neg (hfresh hnew), if_pos hlt]
          have hstep : ∀ st st' met d, d ∈ host.dependencies pkgEnv.name →
              Follows host st met (pkgEnv.name :: stack) →
              loadOneEnv host levels st d = .ok st' →
              Follows host st' (walk host.dependencies 31 levels met d)
                  (pkgEnv.name :: stack) ∧
                d ∈ st'.names ∧ ∀ x ∈ st.names, x ∈ st'.names := by
            intro s s' m d hd hs hrun'
            have hlower := hrank _ d ⟨henv, hd⟩
            refine ih hs (henv.dependency hd) ?_ hrun'
            intro t ht
            rcases List.mem_cons.mp ht with rfl | ht
            · exact hlower
            · exact lt_trans hlower (hstack t ht)
          obtain ⟨h₁, hall, hkept⟩ :=
            Follows.loadAll hstep (h.enter hdeps (hfresh hnew) hdepth) hfold
          rw [hsame] at hall
          refine ⟨h₁.addRequires hload hall, ?_, ?_⟩
          · exact mem_names_addRequires.mpr (.inr rfl)
          · intro x hx
            exact mem_names_addRequires.mpr (.inl (hkept x hx))

theorem loadOneEnv_installed {host : VenvHost} {envs : List WString}
    (hinstalled : ∀ env, Reachable host envs env →
      ∃ pkgEnv, host.load env = .ok (.ok pkgEnv))
    {levels : Nat} {st : Constructor} (h : Suffices levels st) {env : WString}
    (henv : Reachable host envs env) (stop : Stop) :
    loadOneEnv host levels st env ≠ .error stop := by
  induction levels generalizing st env with
  | zero => exact absurd h.pos (lt_irrefl 0)
  | succ levels ih =>
      intro hstop
      obtain ⟨pkgEnv, hpkgEnv⟩ := hinstalled env henv
      cases Stops.of_error hstop with
      | thrown hnew hload =>
          rw [hload] at hpkgEnv
          cases hpkgEnv
      | refused hnew hload hdepth =>
          rw [hload] at hpkgEnv
          cases hpkgEnv
      | below hnew hload hdeps hdepth hfold =>
          obtain ⟨st₁, d, hd, hsuffices, hfail⟩ := foldlM_error
            (fun s x s' _ hs hx => Suffices.of_load hs hx) (h.enter hdepth)
            hfold
          rw [← dependencies_of_load hload] at hd
          exact ih hsuffices (henv.dependency hd) hfail

theorem reachable_lower {host : VenvHost} {envs : List WString} {env : WString}
    (h : env ∈ envs.map asciiStrToLower) : Reachable host envs env := by
  obtain ⟨env, hmem, rfl⟩ := List.mem_map.mp h
  exact .request hmem

theorem loadEnvs_follows {host : VenvHost} {envs : List WString}
    (h : Acyclic host envs) :
    ∃ st, loadEnvs host 32 envs = .ok st ∧
      Follows host st (metNames host envs) [] ∧
      ∀ env ∈ envs, asciiStrToLower env ∈ st.names := by
  cases hload : loadEnvs host 32 envs with
  | error stop =>
      obtain ⟨st, env, henv, hsuffices, hfail⟩ := foldlM_error
        (fun s x s' _ hs hx => Suffices.of_load hs hx)
        (suffices_initial le_rfl) hload
      exact absurd hfail (loadOneEnv_installed h.installed hsuffices
        (reachable_lower henv) stop)
  | ok st =>
      obtain ⟨rank, hrank⟩ := exists_rank_of_chains h.chains
      have hinitial : Follows host {} [] [] := by
        constructor
        · intro x
          simp [Constructor.names]
        · rfl
        · rfl
        · intro e he
          exact absurd he List.not_mem_nil
        · intro a e b heq
          exact absurd heq (by simp)
      obtain ⟨hfollows, hall, -⟩ := Follows.loadAll
        (fun st st' met d hd hst hrun => hst.load h.installed hrank
          (reachable_lower hd) (by simp) hrun) hinitial hload
      refine ⟨st, rfl, hfollows, ?_⟩
      intro env henv
      exact hall _ (List.mem_map_of_mem henv)

/-! ## The order -/

section Order

variable {host : VenvHost} {envs : List WString} {st : Constructor}
  {met : List WString}

theorem mem_keys_of_mem_names {l : List LoadedEnv} {d : WString}
    (h : d ∈ l.map LoadedEnv.name) : asciiStrToLower d ∈ l.map envKey := by
  obtain ⟨e, he, rfl⟩ := List.mem_map.mp h
  exact List.mem_map_of_mem he

theorem exists_of_mem_keys {l : List LoadedEnv} {d : WString}
    (h : asciiStrToLower d ∈ l.map envKey) :
    ∃ e ∈ l, equalsIgnoreCase e.name d = true := by
  obtain ⟨e, he, hkey⟩ := List.mem_map.mp h
  exact ⟨e, he, equalsIgnoreCase_iff.mpr hkey⟩

/-- A package needs the packages that it depends on. -/
def Needs (e : LoadedEnv) (k : WString) : Prop :=
  ∃ d ∈ e.dependencies, asciiStrToLower d = k

theorem ordered_iff {flushed : List LoadedEnv} :
    (∀ a e b, flushed = a ++ e :: b → ∀ d ∈ e.dependencies,
        ∃ e' ∈ a, equalsIgnoreCase e'.name d = true) ↔
      ∀ a e b, flushed = a ++ e :: b → ∀ k, Needs e k → k ∈ a.map envKey := by
  constructor
  · rintro h a e b heq k ⟨d, hd, rfl⟩
    obtain ⟨e', he', hequal⟩ := h a e b heq d hd
    exact List.mem_map.mpr ⟨e', he', equalsIgnoreCase_iff.mp hequal⟩
  · intro h a e b heq d hd
    exact exists_of_mem_keys (h a e b heq _ ⟨d, hd, rfl⟩)

/-- The dependencies of a loaded package, under any spelling of its name. -/
theorem Follows.dependencies_eq {stack : List WString}
    (h : Follows host st met stack) (hcase : host.IgnoresCase) {e : LoadedEnv}
    (he : e ∈ st.standardEnvs ++ st.requiresEnvs) {env : WString}
    (hkey : envKey e = asciiStrToLower env) :
    e.dependencies = host.dependencies env := by
  rw [← dependencies_of_load (h.loaded e he)]
  exact dependencies_congr hcase (equalsIgnoreCase_iff.mpr hkey)

theorem Follows.standard_split {stack : List WString}
    (h : Follows host st met stack) {a b : List LoadedEnv} {e : LoadedEnv}
    (heq : st.standardEnvs = a ++ e :: b) :
    ∃ m m', met = m ++ e.name :: m' ∧
      e.name ∉ followed host.dependencies 31 met ∧
      ∀ x, x ∈ a.map LoadedEnv.name ↔
        x ∈ m ∧ x ∉ followed host.dependencies 31 met := by
  have hfilter := h.standard
  rw [heq, List.map_append, List.map_cons] at hfilter
  obtain ⟨m₁, m₂, hmet, ha, hrest⟩ := List.filter_eq_append_iff.mp hfilter.symm
  obtain ⟨m₃, m₄, hm₂, hdropped, hkept, -⟩ := List.filter_eq_cons_iff.mp hrest
  refine ⟨m₁ ++ m₃, m₄, by rw [hmet, hm₂, List.append_assoc], by simpa using hkept,
    fun x => ?_⟩
  rw [← ha, List.mem_filter, List.mem_append, decide_eq_true_iff]
  constructor
  · rintro ⟨hx, hnot⟩
    exact ⟨.inl hx, hnot⟩
  · rintro ⟨hx | hx, hnot⟩
    · exact ⟨hx, hnot⟩
    · exact absurd hnot (by simpa using hdropped x hx)

/-- The loaded environments are in order if those of the late packages are. -/
theorem Follows.ordered (h : Follows host st met [])
    (hlate : LateReady host met) {a b : List LoadedEnv} {e : LoadedEnv}
    (heq : st.standardEnvs ++ st.requiresEnvs = a ++ e :: b) {k : WString}
    (hk : Needs e k) : k ∈ a.map envKey := by
  obtain ⟨d, hd, rfl⟩ := hk
  rcases List.append_eq_append_iff.mp heq with
    ⟨a', ha, hrequires⟩ | ⟨c, hstandard, hrest⟩
  · apply mem_keys_of_mem_names
    rw [ha, List.map_append, List.mem_append]
    exact h.ready a' e b hrequires d hd
  · cases c with
    | nil =>
        apply mem_keys_of_mem_names
        rw [List.append_nil] at hstandard
        rw [← hstandard]
        have hmem := h.ready [] e b hrest.symm d hd
        rwa [List.map_nil, or_iff_left List.not_mem_nil] at hmem
    | cons e' c =>
        rw [List.cons_append, List.cons_eq_cons] at hrest
        obtain ⟨rfl, -⟩ := hrest
        obtain ⟨m, m', hmet, hnot, hmem⟩ := h.standard_split hstandard
        have hdeps : host.dependencies e.name = e.dependencies :=
          dependencies_of_load (h.loaded e (by rw [heq]; simp))
        obtain ⟨d', hd', hequal, hnot'⟩ := hlate m e.name m' hmet
          (by rw [hdeps]; exact List.ne_nil_of_mem hd) hnot d
          (by rwa [hdeps])
        obtain ⟨e', he', rfl⟩ := List.mem_map.mp ((hmem d').mpr ⟨hd', hnot'⟩)
        exact List.mem_map.mpr ⟨e', he', equalsIgnoreCase_iff.mp hequal⟩

/-- If the loaded environments are in order, every late package was met after
those that it depends on. -/
theorem Follows.lateReady (h : Follows host st met [])
    (hcase : host.IgnoresCase)
    (hordered : ∀ a e b, st.standardEnvs ++ st.requiresEnvs = a ++ e :: b →
      envKey e ∉ a.map envKey → ∀ k, Needs e k → k ∈ a.map envKey) :
    LateReady host met := by
  intro m env m' hmet hdeps hnot d hd
  -- The package is one of the standard environments, at the same place.
  have hfilter := h.standard
  rw [hmet, List.filter_append, List.filter_cons_of_pos (by
    rw [← hmet]
    exact decide_eq_true hnot)] at hfilter
  obtain ⟨a, rest, hstandard, ha, hrest⟩ := List.map_eq_append_iff.mp hfilter
  obtain ⟨e, b, rfl, rfl, -⟩ := List.map_eq_cons_iff.mp hrest
  -- The first one with its name is flushed, so its dependencies come before.
  obtain ⟨a₀, e₀, b₀, hsplit, hkey, hfirst⟩ :=
    exists_first envKey (show e ∈ a ++ [e] by simp)
  have hall : st.standardEnvs ++ st.requiresEnvs =
      a₀ ++ e₀ :: (b₀ ++ (b ++ st.requiresEnvs)) := by
    rw [hstandard]
    calc
      a ++ e :: b ++ st.requiresEnvs = (a ++ [e]) ++ (b ++ st.requiresEnvs) := by
        simp
      _ = _ := by
        rw [hsplit]
        simp
  have hdeps₀ : e₀.dependencies = host.dependencies e.name :=
    h.dependencies_eq hcase (by rw [hall]; simp) hkey
  obtain ⟨e', he', hequal⟩ := exists_of_mem_keys
    (hordered a₀ e₀ _ hall (by rwa [hkey]) _ ⟨d, hdeps₀ ▸ hd, rfl⟩)
  have hsub : e' ∈ a := by
    rcases List.eq_nil_or_concat b₀ with rfl | ⟨b₁, e₁, rfl⟩
    · obtain ⟨rfl, -⟩ := List.append_inj' hsplit rfl
      exact he'
    · rw [List.concat_eq_append, ← List.cons_append, ← List.append_assoc] at hsplit
      obtain ⟨rfl, -⟩ := List.append_inj' hsplit rfl
      exact List.mem_append_left _ he'
  have hname : e'.name ∈ m.filter fun n =>
      n ∉ followed host.dependencies 31 (m ++ e.name :: m') := by
    rw [← ha]
    exact List.mem_map_of_mem hsub
  rw [List.mem_filter, decide_eq_true_iff, ← hmet] at hname
  exact ⟨e'.name, hname.1, hequal, hname.2⟩

/-- Every package that is reachable is loaded, if the order is right. -/
theorem Follows.mem_keys (h : Follows host st met [])
    (hcase : host.IgnoresCase)
    (hrequests : ∀ env ∈ envs, asciiStrToLower env ∈ st.names)
    (hordered : ∀ a e b, st.standardEnvs ++ st.requiresEnvs = a ++ e :: b →
      ∀ k, Needs e k → k ∈ a.map envKey)
    {env : WString} (henv : Reachable host envs env) :
    asciiStrToLower env ∈
      (st.standardEnvs ++ st.requiresEnvs).map envKey := by
  induction henv with
  | request hmem => exact mem_keys_of_mem_names (hrequests _ hmem)
  | @dependency env d henv hd ih =>
      obtain ⟨e, he, hkey⟩ := List.mem_map.mp ih
      obtain ⟨a, b, hsplit⟩ := List.append_of_mem he
      have hdeps := h.dependencies_eq hcase he hkey
      have hmem := hordered a e b hsplit _ ⟨d, hdeps ▸ hd, rfl⟩
      rw [hsplit, List.map_append]
      exact List.mem_append_left _ hmem

end Order

theorem initializeEnvs_of_load {host : VenvHost} {levels : Nat}
    {envs : List WString} {st : Constructor}
    (h : loadEnvs host levels envs = .ok st) (sm : Simulator) :
    ∃ f, initializeEnvs host levels envs sm = .ok f ∧
      f.available = firsts envKey (st.standardEnvs ++ st.requiresEnvs) ∧
      f.sm = (flushEnv host st sm).sm := by
  unfold initializeEnvs
  cases envs with
  | nil =>
      cases h
      exact ⟨_, rfl, rfl, rfl⟩
  | cons env envs =>
      rw [if_neg (by simp), h]
      exact ⟨_, rfl, flushEnv_available host st sm, rfl⟩

/-- In an acyclic relation the environments are flushed in order exactly if every
package whose dependencies are not followed is met after these. -/
theorem initializeEnvs_inOrder_iff {host : VenvHost} {envs : List WString}
    (hcase : host.IgnoresCase) (hacyclic : Acyclic host envs)
    (sm : Simulator) :
    ∃ f, (∀ levels, 32 ≤ levels →
        initializeEnvs host levels envs sm = .ok f) ∧
      (FlushedInOrder host envs f.available ↔
        LateReady host (metNames host envs)) := by
  obtain ⟨st, hload, hfollows, hrequests⟩ := loadEnvs_follows hacyclic
  obtain ⟨f, hrun, havailable, -⟩ := initializeEnvs_of_load hload sm
  refine ⟨f, fun levels hlevels => ?_, ?_⟩
  · obtain ⟨result, hresult, -, -⟩ := initializeEnvs_ends host envs sm
    rw [hresult levels hlevels, ← hresult 32 le_rfl, hrun]
  rw [havailable]
  constructor
  · intro h
    exact hfollows.lateReady hcase
      ((firsts_ordered_iff envKey).mp (ordered_iff.mp h.ordered))
  · intro hlate
    have hordered : ∀ a e b, st.standardEnvs ++ st.requiresEnvs = a ++ e :: b →
        ∀ k, Needs e k → k ∈ a.map envKey :=
      fun a e b heq k hk => hfollows.ordered hlate heq hk
    constructor
    · intro env henv
      rw [← length_filter_firsts envKey
        (hfollows.mem_keys hcase hrequests hordered henv)]
      congr 1
      apply List.filter_congr
      intro e he
      rw [Bool.eq_iff_iff, equalsIgnoreCase_iff, decide_eq_true_iff]
      exact Iff.rfl
    · apply ordered_iff.mpr
      apply (firsts_ordered_iff envKey).mpr
      intro a e b heq hfirst
      exact hordered a e b heq

/-- With at most 31 packages that have dependencies, all of them are
followed. -/
theorem lateReady_of_few {host : VenvHost} {met : List WString}
    (h : (bearing host.dependencies met).length ≤ 31) : LateReady host met := by
  intro a env b hmet hdeps hnot
  have hall : followed host.dependencies 31 met =
      bearing host.dependencies met := List.take_of_length_le h
  rw [hall] at hnot
  refine absurd ?_ hnot
  apply List.mem_filter.mpr
  refine ⟨by rw [hmet]; simp, ?_⟩
  simpa using hdeps

/-! ### More packages with dependencies than are followed -/

/-- A lock file with dependencies. -/
def lockOf (dependencies : List WString) : Json :=
  Json.null.setMember (narrow "venv") (Json.null.setMember
    (narrow "dependencies") (textArray dependencies))

/-- The packages of a table are installed. -/
def tableHost (table : List (WString × List WString)) : VenvHost where
  lock name := (table.find? fun entry => equalsIgnoreCase name entry.1).elim
    (.error {}) fun entry => .ok (lockOf entry.2)
  localEnv _ := .error {}

theorem tableHost_ignoresCase (table : List (WString × List WString)) :
    (tableHost table).IgnoresCase where
  lock a b h := by
    have hentry : ∀ entry : WString × List WString,
        equalsIgnoreCase a entry.1 = equalsIgnoreCase b entry.1 := by
      intro entry
      rw [equalsIgnoreCase_comm, equalsIgnoreCase_congr h, equalsIgnoreCase_comm]
    simp only [tableHost, hentry]
  localEnv a b _ := rfl

def VenvHost.installs (host : VenvHost) (env : WString) : Bool :=
  match host.load env with
  | .ok (.ok _) => true
  | _ => false

/-- All packages are among some nodes, and depend only on packages without
dependencies. -/
structure Flat (host : VenvHost) (envs nodes : List WString) : Prop where
  requests : envs.all (fun env => nodes.contains (asciiStrToLower env)) = true
  leaves : nodes.all (fun n => (host.dependencies n).all fun d =>
    nodes.contains d && (host.dependencies d).isEmpty) = true

theorem Flat.dependencies {host : VenvHost} {envs nodes : List WString}
    (h : Flat host envs nodes) : ∀ n ∈ nodes, ∀ d ∈ host.dependencies n,
      d ∈ nodes ∧ host.dependencies d = [] := by
  simpa using h.leaves

theorem Flat.mem_nodes {host : VenvHost} {envs nodes : List WString}
    (h : Flat host envs nodes) {env : WString}
    (henv : Reachable host envs env) : env ∈ nodes := by
  induction henv with
  | request hmem =>
      have hnode := List.all_eq_true.mp h.requests _ hmem
      simpa using hnode
  | dependency henv hd ih => exact (h.dependencies _ ih _ hd).1

theorem Flat.acyclic {host : VenvHost} {envs nodes : List WString}
    (h : Flat host envs nodes) (hinstalled : nodes.all host.installs = true) :
    Acyclic host envs := by
  constructor
  · intro env henv
    have hload := List.all_eq_true.mp hinstalled env (h.mem_nodes henv)
    unfold VenvHost.installs at hload
    split at hload
    · rename_i pkgEnv heq
      exact ⟨pkgEnv, heq⟩
    · cases hload
  · intro chain hchain
    rcases chain with _ | ⟨a, _ | ⟨b, _ | ⟨c, rest⟩⟩⟩
    · simp
    · simp
    · simp
    · obtain ⟨⟨ha, hb⟩, htail⟩ := List.isChain_cons_cons.mp hchain
      obtain ⟨⟨-, hc⟩, -⟩ := List.isChain_cons_cons.mp htail
      rw [(h.dependencies a (h.mem_nodes ha) b hb).2] at hc
      exact absurd hc List.not_mem_nil

/-- `p00`, `p01` and so on. -/
def sibling (i : Nat) : WString :=
  wide "p" ++ [(0x30 + i / 10).toUInt16, (0x30 + i % 10).toUInt16]

/-- Packages that depend on `q`, and `z`, which depends on `r`. -/
def siblingHost (count : Nat) : VenvHost :=
  tableHost ((List.range count).map (fun i => (sibling i, [wide "q"])) ++
    [(wide "z", [wide "r"]), (wide "q", []), (wide "r", [])])

def siblingEnvs (count : Nat) : List WString :=
  (List.range count).map sibling ++ [wide "z"]

def siblingNodes (count : Nat) : List WString :=
  siblingEnvs count ++ [wide "q", wide "r"]

/-- The checks of the nodes, all together. -/
def siblingChecks (count : Nat) : Bool :=
  (siblingEnvs count).all
    (fun env => (siblingNodes count).contains (asciiStrToLower env)) &&
  (siblingNodes count).all (fun n =>
    ((siblingHost count).dependencies n).all fun d =>
      (siblingNodes count).contains d &&
        ((siblingHost count).dependencies d).isEmpty) &&
  (siblingNodes count).all (siblingHost count).installs

theorem flat_of_checks {count : Nat} (h : siblingChecks count = true) :
    Flat (siblingHost count) (siblingEnvs count) (siblingNodes count) := by
  obtain ⟨hflat, -⟩ := Bool.and_eq_true_iff.mp h
  obtain ⟨hrequests, hleaves⟩ := Bool.and_eq_true_iff.mp hflat
  exact ⟨hrequests, hleaves⟩

theorem acyclic_of_checks {count : Nat} (h : siblingChecks count = true) :
    Acyclic (siblingHost count) (siblingEnvs count) :=
  (flat_of_checks h).acyclic (Bool.and_eq_true_iff.mp h).2

theorem siblingChecks_one : siblingChecks 1 = true := by
  decide

theorem flat_two : Flat (siblingHost 1) (siblingEnvs 1) (siblingNodes 1) :=
  flat_of_checks siblingChecks_one

theorem acyclic_two : Acyclic (siblingHost 1) (siblingEnvs 1) :=
  acyclic_of_checks siblingChecks_one

/-- Two packages are flushed after what they depend on. -/
theorem initializeEnvs_inOrder_two :
    ∃ f, (∀ levels, 32 ≤ levels →
        initializeEnvs (siblingHost 1) levels (siblingEnvs 1) {} = .ok f) ∧
      FlushedInOrder (siblingHost 1) (siblingEnvs 1) f.available := by
  obtain ⟨f, hrun, hiff⟩ := initializeEnvs_inOrder_iff
    (tableHost_ignoresCase _) acyclic_two {}
  refine ⟨f, hrun, hiff.mpr ?_⟩
  exact lateReady_of_few (by decide)

theorem acyclic_siblings : Acyclic (siblingHost 31) (siblingEnvs 31) :=
  acyclic_of_checks (by decide)

/-- Of 32 packages the last one is flushed without the one that it depends
on. -/
theorem initializeEnvs_siblings :
    (siblingHost 31).IgnoresCase ∧ Acyclic (siblingHost 31) (siblingEnvs 31) ∧
      ∃ f, initializeEnvs (siblingHost 31) 32 (siblingEnvs 31) {} = .ok f ∧
        ¬ FlushedInOrder (siblingHost 31) (siblingEnvs 31) f.available := by
  refine ⟨tableHost_ignoresCase _, acyclic_siblings, ?_⟩
  have hflushed : (initializeEnvs (siblingHost 31) 32 (siblingEnvs 31)
        {}).toOption.map (fun f => f.available.any
          fun e => equalsIgnoreCase e.name (wide "r")) = some false := by
    decide
  cases hrun : initializeEnvs (siblingHost 31) 32 (siblingEnvs 31) {} with
  | error stop =>
      rw [hrun] at hflushed
      cases hflushed
  | ok f =>
      refine ⟨f, rfl, fun h => ?_⟩
      rw [hrun] at hflushed
      have hnone : (f.available.any
          fun e => equalsIgnoreCase e.name (wide "r")) = false :=
        Option.some.inj hflushed
      have hz : Reachable (siblingHost 31) (siblingEnvs 31)
          (asciiStrToLower (wide "z")) :=
        .request (by decide)
      have hone := h.once (wide "r") (hz.dependency (by decide))
      rw [List.filter_eq_nil_iff.mpr] at hone
      · cases hone
      · intro e he hequal
        rw [List.any_eq_false] at hnone
        exact hnone e he hequal

end Baulk.Env
