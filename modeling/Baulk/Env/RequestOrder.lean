import Baulk.Env.LoadOrder

/-!
# The order of requests

A package that is not installed is tolerated while the counter of
`Constructor` is at most one.  Packages with dependencies that were requested
before have raised it for good, so the order of the requests matters.
-/

namespace Baulk.Env

open Pkg Support

/-! ## What does not depend on the order -/

/-- The package is not installed. -/
def VenvHost.Absent (host : VenvHost) (env : WString) : Prop :=
  ∃ ec, host.load env = .ok (.error ec)

/-- The files of the package make `loadPackageEnv` throw. -/
def VenvHost.Malformed (host : VenvHost) (env : WString) : Prop :=
  ∃ ec, host.load env = .error ec

/-- Both runs of `InitializeEnvs` fail, or both flush the same packages. -/
def SameOutcome : Except Stop Flushing → Except Stop Flushing → Prop
  | .ok f, .ok f' => ∀ k, k ∈ f.available.map envKey ↔ k ∈ f'.available.map envKey
  | .error _, .error _ => True
  | _, _ => False

/-- The outcome is the same for every order of the requests. -/
def OrderIndependent (host : VenvHost) (envs : List WString) : Prop :=
  ∀ envs', envs'.Perm envs → ∀ sm,
    SameOutcome (initializeEnvs host 32 envs' sm)
      (initializeEnvs host 32 envs sm)

/-- The counter does not reach its limit: dependencies form short chains, and few
packages have any. -/
structure WithinLimit (host : VenvHost) (envs : List WString) : Prop where
  chains : ∀ chain : List WString, chain.IsChain
    (fun a b => Reachable host envs a ∧ b ∈ host.dependencies a) →
    chain.length ≤ 32
  few : ∃ bearers : List WString, bearers.length ≤ 31 ∧
    ∀ env, Reachable host envs env → host.dependencies env ≠ [] → env ∈ bearers

/-- If the package is the first one with dependencies that is requested, no
package is missing when the counter is above one. -/
structure GoodFirst (host : VenvHost) (envs : List WString) (q : WString) :
    Prop where
  others : ∀ env, Reachable host envs env → env ≠ q →
    ∀ d ∈ host.dependencies env, ¬ host.Absent d
  own : ∀ a d b, host.dependencies q = a ++ d :: b →
    (∃ x ∈ a, host.dependencies x ≠ []) → ¬ host.Absent d

/-- When the order of the requests makes no difference. -/
def OrderSafe (host : VenvHost) (envs : List WString) : Prop :=
  (∀ env env', Reachable host envs env → Reachable host envs env' →
    host.dependencies env ≠ [] → host.dependencies env' ≠ [] → env = env') ∨
  (∃ env, Reachable host envs env ∧ host.Malformed env) ∨
  ((∀ env ∈ envs, ¬ host.Absent (asciiStrToLower env)) ∧
    ∀ env ∈ envs, host.dependencies (asciiStrToLower env) ≠ [] →
      GoodFirst host envs (asciiStrToLower env)) ∨
  ∀ env ∈ envs, host.dependencies (asciiStrToLower env) ≠ [] →
    ¬ GoodFirst host envs (asciiStrToLower env)

/-! ## States within the limit -/

/-- The state of a `Constructor` while the packages of the stack are loaded. -/
structure Within (host : VenvHost) (envs : List WString) (st : Constructor)
    (stack : List WString) : Prop where
  reach : ∀ n, n ∈ st.names ∨ n ∈ stack → Reachable host envs n
  loaded : ∀ e ∈ st.standardEnvs ++ st.requiresEnvs,
    host.load e.name = .ok (.ok e)
  standard : ∀ e ∈ st.standardEnvs, e.dependencies = []
  closed : ∀ e ∈ st.requiresEnvs, ∀ d ∈ e.dependencies,
    d ∈ st.names ∨ host.Absent d
  entered : ∀ n ∈ st.requiresEnvs.map LoadedEnv.name ++ stack,
    host.dependencies n ≠ []
  nodup : (st.requiresEnvs.map LoadedEnv.name ++ stack).Nodup
  depth : st.depth = st.requiresEnvs.length + stack.length

section States

variable {host : VenvHost} {envs : List WString} {st : Constructor}
  {stack : List WString}

theorem within_initial (host : VenvHost) (envs : List WString) :
    Within host envs {} [] := by
  constructor
  · intro n hn
    simp [Constructor.names] at hn
  · intro e he
    exact absurd he List.not_mem_nil
  · intro e he
    exact absurd he List.not_mem_nil
  · intro e he
    exact absurd he List.not_mem_nil
  · intro n hn
    exact absurd hn List.not_mem_nil
  · exact List.nodup_nil
  · rfl

/-- The packages that were entered are among those with dependencies. -/
theorem Within.depth_le (h : Within host envs st stack)
    {bearers : List WString}
    (hfew : ∀ env, Reachable host envs env → host.dependencies env ≠ [] →
      env ∈ bearers) : st.depth ≤ bearers.length := by
  have hsub : st.requiresEnvs.map LoadedEnv.name ++ stack ⊆ bearers := by
    intro n hn
    refine hfew n (h.reach n ?_) (h.entered n hn)
    rcases List.mem_append.mp hn with hn | hn
    · left
      rw [Constructor.names, List.map_append]
      exact List.mem_append_right _ hn
    · exact .inr hn
  have hle := (h.nodup.subperm hsub).length_le
  rw [List.length_append, List.length_map, ← h.depth] at hle
  exact hle

theorem Within.not_absent (h : Within host envs st stack) {n : WString}
    (hn : n ∈ st.names) : ¬ host.Absent n := by
  rintro ⟨ec, habsent⟩
  obtain ⟨e, he, rfl⟩ := List.mem_map.mp hn
  rw [h.loaded e he] at habsent
  cases habsent

theorem Within.addStandard (h : Within host envs st stack) {e : LoadedEnv}
    (hload : host.load e.name = .ok (.ok e)) (hdeps : e.dependencies = [])
    (hreach : Reachable host envs e.name) :
    Within host envs (st.addStandard e) stack where
  reach n hn := by
    rw [mem_names_addStandard] at hn
    rcases hn with (hn | rfl) | hn
    · exact h.reach n (.inl hn)
    · exact hreach
    · exact h.reach n (.inr hn)
  loaded e' he' := by
    change e' ∈ st.standardEnvs ++ [e] ++ st.requiresEnvs at he'
    rw [List.append_assoc, List.mem_append, List.singleton_append,
      List.mem_cons] at he'
    rcases he' with he' | rfl | he'
    · exact h.loaded e' (List.mem_append_left _ he')
    · exact hload
    · exact h.loaded e' (List.mem_append_right _ he')
  standard e' he' := by
    rcases List.mem_append.mp he' with he' | he'
    · exact h.standard e' he'
    · rw [List.mem_singleton.mp he', hdeps]
  closed e' he' d hd := by
    rcases h.closed e' he' d hd with hmem | habsent
    · exact .inl (mem_names_addStandard.mpr (.inl hmem))
    · exact .inr habsent
  entered := h.entered
  nodup := h.nodup
  depth := h.depth

theorem Within.enter (h : Within host envs st stack) {env : WString}
    (hdeps : host.dependencies env ≠ []) (hnew : env ∉ st.names)
    (hstack : env ∉ stack) (hreach : Reachable host envs env) :
    Within host envs st.enter (env :: stack) where
  reach n hn := by
    rcases hn with hn | hn
    · exact h.reach n (.inl hn)
    · rcases List.mem_cons.mp hn with rfl | hn
      · exact hreach
      · exact h.reach n (.inr hn)
  loaded := h.loaded
  standard := h.standard
  closed := h.closed
  entered n hn := by
    rw [List.perm_middle.mem_iff, List.mem_cons] at hn
    rcases hn with rfl | hn
    · exact hdeps
    · exact h.entered n hn
  nodup := by
    rw [List.perm_middle.nodup_iff, List.nodup_cons]
    refine ⟨fun hmem => ?_, h.nodup⟩
    rcases List.mem_append.mp hmem with hmem | hmem
    · apply hnew
      rw [Constructor.names, List.map_append]
      exact List.mem_append_right _ hmem
    · exact hstack hmem
  depth := by
    rw [List.length_cons, ← Nat.add_assoc]
    exact congrArg (· + 1) h.depth

theorem Within.addRequires {e : LoadedEnv}
    (h : Within host envs st (e.name :: stack))
    (hload : host.load e.name = .ok (.ok e))
    (hclosed : ∀ d ∈ e.dependencies, d ∈ st.names ∨ host.Absent d) :
    Within host envs (st.addRequires e) stack where
  reach n hn := by
    rw [mem_names_addRequires] at hn
    rcases hn with (hn | rfl) | hn
    · exact h.reach n (.inl hn)
    · exact h.reach _ (.inr List.mem_cons_self)
    · exact h.reach n (.inr (List.mem_cons_of_mem _ hn))
  loaded e' he' := by
    change e' ∈ st.standardEnvs ++ (st.requiresEnvs ++ [e]) at he'
    rw [← List.append_assoc, List.mem_append, List.mem_singleton] at he'
    rcases he' with he' | rfl
    · exact h.loaded e' he'
    · exact hload
  standard := h.standard
  closed e' he' d hd := by
    have hcases : d ∈ st.names ∨ host.Absent d := by
      rcases List.mem_append.mp he' with he' | he'
      · exact h.closed e' he' d hd
      · rw [List.mem_singleton.mp he'] at hd
        exact hclosed d hd
    rcases hcases with hmem | habsent
    · exact .inl (mem_names_addRequires.mpr (.inl hmem))
    · exact .inr habsent
  entered n hn := by
    apply h.entered n
    simpa [Constructor.addRequires] using hn
  nodup := by
    have hnodup := h.nodup
    simpa [Constructor.addRequires] using hnodup
  depth := by
    rw [Constructor.addRequires, List.length_append, h.depth]
    simp only [List.length_cons, List.length_nil]
    omega

end States

/-! ## One package -/

section OneStep

variable {host : VenvHost} {levels : Nat} {st st' : Constructor} {env : WString}

theorem names_subset_of_load (h : loadOneEnv host levels st env = .ok st') :
    ∀ x ∈ st.names, x ∈ st'.names := by
  induction levels generalizing st st' env with
  | zero => cases h
  | succ levels ih =>
      intro x hx
      cases Loads.of_ok h with
      | known hloaded => exact hx
      | absent hload hdepth => exact hx
      | leaf hnew hload hdeps => exact mem_names_addStandard.mpr (.inl hx)
      | late hnew hload hdeps hdepth => exact mem_names_addStandard.mpr (.inl hx)
      | followed hnew hload hdeps hdepth hfold =>
          apply mem_names_addRequires.mpr
          left
          exact foldlM_invariant (I := fun s => x ∈ s.names)
            (fun s d s' _ hs hd => ih hd x hs) hx hfold

/-- Above one, the counter forbids packages that are not installed. -/
theorem mem_names_of_load (hdepth : 1 < st.depth)
    (h : loadOneEnv host levels st env = .ok st') : env ∈ st'.names := by
  cases levels with
  | zero => cases h
  | succ levels =>
      cases Loads.of_ok h with
      | known hloaded => exact envLoaded_iff.mp hloaded
      | absent hload hle => omega
      | leaf hnew hload hdeps =>
          exact mem_names_addStandard.mpr (.inr (name_of_load hload).symm)
      | late hnew hload hdeps _ =>
          exact mem_names_addStandard.mpr (.inr (name_of_load hload).symm)
      | followed hnew hload hdeps _ hfold =>
          exact mem_names_addRequires.mpr (.inr (name_of_load hload).symm)

/-- A package without dependencies leaves the counter as it is. -/
theorem load_of_leaf (hdeps : host.dependencies env = [])
    (h : loadOneEnv host levels st env = .ok st') :
    st'.depth = st.depth ∧ st'.requiresEnvs = st.requiresEnvs := by
  cases levels with
  | zero => cases h
  | succ levels =>
      cases Loads.of_ok h with
      | known hloaded => exact ⟨rfl, rfl⟩
      | absent hload hdepth => exact ⟨rfl, rfl⟩
      | leaf hnew hload _ => exact ⟨rfl, rfl⟩
      | late hnew hload hsome hdepth =>
          rw [dependencies_of_load hload] at hdeps
          exact absurd hdeps hsome
      | followed hnew hload hsome hdepth hfold =>
          rw [dependencies_of_load hload] at hdeps
          exact absurd hdeps hsome

theorem loadAll_of_leaves {list : List WString}
    (hleaves : ∀ x ∈ list, host.dependencies x = [])
    (h : list.foldlM (loadOneEnv host levels) st = .ok st') :
    st'.depth = st.depth ∧ st'.requiresEnvs = st.requiresEnvs :=
  foldlM_invariant
    (I := fun s => s.depth = st.depth ∧ s.requiresEnvs = st.requiresEnvs)
    (fun s x s' hx hs hrun => by
      have hstep := load_of_leaf (hleaves x hx) hrun
      exact ⟨hstep.1.trans hs.1, hstep.2.trans hs.2⟩) ⟨rfl, rfl⟩ h

/-- All packages but one have only dependencies that are installed. -/
def StrictBut (q : WString) (st : Constructor) : Prop :=
  ∀ e ∈ st.requiresEnvs, e.name ≠ q → ∀ d ∈ e.dependencies, d ∈ st.names

theorem StrictBut.load {q : WString} (hstrict : StrictBut q st)
    (hdepth : 0 < st.depth) (h : loadOneEnv host levels st env = .ok st') :
    StrictBut q st' := by
  induction levels generalizing st st' env with
  | zero => cases h
  | succ levels ih =>
      have hkept := names_subset_of_load h
      cases Loads.of_ok h with
      | known hloaded => exact hstrict
      | absent hload hle => exact hstrict
      | leaf hnew hload hdeps =>
          intro e he hne d hd
          exact hkept d (hstrict e he hne d hd)
      | late hnew hload hdeps _ =>
          intro e he hne d hd
          exact hkept d (hstrict e he hne d hd)
      | followed hnew hload hdeps _ hfold =>
          have henter : StrictBut q st.enter ∧ 1 < st.enter.depth :=
            ⟨hstrict, Nat.succ_lt_succ hdepth⟩
          obtain ⟨⟨hstrict₁, -⟩, hall, -⟩ := foldlM_forall
            (I := fun s => StrictBut q s ∧ 1 < s.depth)
            (P := fun d s => d ∈ s.names)
            (fun s d s' _ hs hrun =>
              ⟨⟨ih hs.1 (Nat.lt_of_succ_lt hs.2) hrun,
                lt_of_lt_of_le hs.2 (depth_le_of_loadOneEnv hrun)⟩,
                mem_names_of_load hs.2 hrun, names_subset_of_load hrun⟩)
            henter hfold
          intro e he hne d hd
          apply mem_names_addRequires.mpr
          left
          rcases List.mem_append.mp he with he | he
          · exact hstrict₁ e he hne d hd
          · rw [List.mem_singleton.mp he] at hd
            exact hall d hd

end OneStep

/-! ## One package within the limit -/

/-- A rank that goes down along dependencies, and the packages that have any. -/
structure Measured (host : VenvHost) (envs : List WString)
    (rank : WString → Nat) (bearers : List WString) : Prop where
  lower : ∀ a b, Reachable host envs a ∧ b ∈ host.dependencies a →
    rank b < rank a
  length : bearers.length ≤ 31
  few : ∀ env, Reachable host envs env → host.dependencies env ≠ [] →
    env ∈ bearers

theorem WithinLimit.measured {host : VenvHost} {envs : List WString}
    (h : WithinLimit host envs) :
    ∃ rank bearers, Measured host envs rank bearers := by
  obtain ⟨rank, hrank⟩ := exists_rank_of_chains h.chains
  obtain ⟨bearers, hlength, hfew⟩ := h.few
  exact ⟨rank, bearers, hrank, hlength, hfew⟩

section Steps

variable {host : VenvHost} {envs bearers : List WString} {rank : WString → Nat}

theorem Measured.below (m : Measured host envs rank bearers)
    {stack : List WString} {env d : WString} (henv : Reachable host envs env)
    (hd : d ∈ host.dependencies env) (hstack : ∀ s ∈ stack, rank env < rank s) :
    ∀ s ∈ env :: stack, rank d < rank s := by
  have hlower := m.lower env d ⟨henv, hd⟩
  intro s hs
  rcases List.mem_cons.mp hs with rfl | hs
  · exact hlower
  · exact lt_trans hlower (hstack s hs)

/-- What loading a package does, when none is too deep. -/
structure StepDone (host : VenvHost) (envs : List WString)
    (st' : Constructor) (stack : List WString) (env : WString) : Prop where
  within : Within host envs st' stack
  done : env ∈ st'.names ∨ host.Absent env

theorem Within.load (m : Measured host envs rank bearers)
    {levels : Nat} {st st' : Constructor} {stack : List WString}
    {env : WString} (h : Within host envs st stack)
    (henv : Reachable host envs env) (hstack : ∀ s ∈ stack, rank env < rank s)
    (hrun : loadOneEnv host levels st env = .ok st') :
    StepDone host envs st' stack env := by
  induction levels generalizing st st' stack env with
  | zero => cases hrun
  | succ levels ih =>
      have hfresh : env ∉ stack := fun hmem => lt_irrefl _ (hstack env hmem)
      cases Loads.of_ok hrun with
      | known hloaded => exact ⟨h, .inl (envLoaded_iff.mp hloaded)⟩
      | absent hload hdepth => exact ⟨h, .inr ⟨_, hload⟩⟩
      | @leaf pkgEnv hnew hload hdeps =>
          obtain rfl := name_of_load hload
          exact ⟨h.addStandard hload hdeps henv,
            .inl (mem_names_addStandard.mpr (.inr rfl))⟩
      | @late pkgEnv hnew hload hdeps hdepth =>
          obtain rfl := name_of_load hload
          rw [← dependencies_of_load hload] at hdeps
          have hle := (h.enter hdeps (not_mem_names hnew) hfresh henv).depth_le
            m.few
          have hlength := m.length
          change st.depth + 1 ≤ _ at hle
          omega
      | @followed pkgEnv st₁ hnew hload hdeps hdepth hfold =>
          obtain rfl := name_of_load hload
          have hsame := dependencies_of_load hload
          rw [← hsame] at hdeps hfold
          obtain ⟨hwithin, hall, -⟩ := foldlM_forall
            (I := fun s => Within host envs s (pkgEnv.name :: stack))
            (P := fun d s => d ∈ s.names ∨ host.Absent d)
            (fun s d s' hd hs hrun' => by
              have hstep := ih hs (henv.dependency hd)
                (m.below henv hd hstack) hrun'
              exact ⟨hstep.within, hstep.done,
                fun y hy => hy.imp_left (names_subset_of_load hrun' y)⟩)
            (h.enter hdeps (not_mem_names hnew) hfresh henv) hfold
          rw [hsame] at hall
          exact ⟨hwithin.addRequires hload hall,
            .inl (mem_names_addRequires.mpr (.inr rfl))⟩

theorem Within.loadAll (m : Measured host envs rank bearers) {levels : Nat}
    {st st' : Constructor} {stack list : List WString}
    (h : Within host envs st stack)
    (hlist : ∀ d ∈ list, Reachable host envs d ∧ ∀ s ∈ stack, rank d < rank s)
    (hrun : list.foldlM (loadOneEnv host levels) st = .ok st') :
    Within host envs st' stack ∧
      ∀ d ∈ list, d ∈ st'.names ∨ host.Absent d := by
  obtain ⟨hwithin, hall, -⟩ := foldlM_forall
    (I := fun s => Within host envs s stack)
    (P := fun d s => d ∈ s.names ∨ host.Absent d)
    (fun s d s' hd hs hrun' => by
      have hstep := hs.load m (hlist d hd).1 (hlist d hd).2 hrun'
      exact ⟨hstep.within, hstep.done,
        fun y hy => hy.imp_left (names_subset_of_load hrun' y)⟩) h hrun
  exact ⟨hwithin, hall⟩

/-- A loaded package with dependencies is one of `requiresEnvs`. -/
theorem Within.mem_requires {st : Constructor} {stack : List WString}
    (h : Within host envs st stack) {n : WString} (hn : n ∈ st.names)
    (hdeps : host.dependencies n ≠ []) :
    ∃ e ∈ st.requiresEnvs, e.name = n ∧
      e.dependencies = host.dependencies n := by
  obtain ⟨e, he, rfl⟩ := List.mem_map.mp hn
  have hsame := dependencies_of_load (h.loaded e he)
  rcases List.mem_append.mp he with hstandard | hrequires
  · rw [hsame, h.standard e hstandard] at hdeps
    exact absurd rfl hdeps
  · exact ⟨e, hrequires, rfl, hsame.symm⟩

theorem Within.all_done {st : Constructor} (h : Within host envs st [])
    (hrequests : ∀ env ∈ envs, asciiStrToLower env ∈ st.names ∨
      host.Absent (asciiStrToLower env))
    {n : WString} (hn : Reachable host envs n) :
    n ∈ st.names ∨ host.Absent n := by
  induction hn with
  | request hmem => exact hrequests _ hmem
  | @dependency env d henv hd ih =>
      rcases ih with hmem | ⟨ec, habsent⟩
      · obtain ⟨e, he, -, hdeps⟩ := h.mem_requires hmem (List.ne_nil_of_mem hd)
        rw [← hdeps] at hd
        exact h.closed e he d hd
      · rw [VenvHost.dependencies, habsent] at hd
        exact absurd hd List.not_mem_nil

/-- While its dependencies are loaded, a package that comes after one with
dependencies has to be installed. -/
theorem Within.own_installed (m : Measured host envs rank bearers)
    {levels : Nat} {st st' : Constructor} {q : WString}
    (h : Within host envs st [q]) (hq : Reachable host envs q)
    (hrun : (host.dependencies q).foldlM (loadOneEnv host levels) st = .ok st')
    {a b : List WString} {d : WString} (hsplit : host.dependencies q = a ++ d :: b)
    (hbefore : ∃ x ∈ a, host.dependencies x ≠ []) : ¬ host.Absent d := by
  have hbelow : ∀ x ∈ host.dependencies q, Reachable host envs x ∧
      ∀ s ∈ [q], rank x < rank s :=
    fun x hx => ⟨hq.dependency hx, m.below hq hx (by simp)⟩
  have hbelow' := hbelow
  rw [hsplit] at hrun hbelow'
  obtain ⟨s₁, ha, hrest⟩ := foldlM_append_ok_iff.mp hrun
  obtain ⟨s₂, hd, -⟩ := foldlM_cons_ok_iff.mp hrest
  obtain ⟨h₁, hall⟩ := h.loadAll m
    (fun x hx => hbelow' x (List.mem_append_left _ hx)) ha
  obtain ⟨x, hx, hdeps⟩ := hbefore
  have hmem : x ∈ s₁.names := by
    rcases hall x hx with hmem | ⟨ec, habsent⟩
    · exact hmem
    · rw [VenvHost.dependencies, habsent] at hdeps
      exact absurd rfl hdeps
  obtain ⟨e, he, -, -⟩ := h₁.mem_requires hmem hdeps
  have hdepth : 1 < s₁.depth := by
    rw [h₁.depth, List.length_singleton]
    have hpos := List.length_pos_of_mem he
    omega
  have hd' := hbelow' d (List.mem_append_right _ List.mem_cons_self)
  have h₂ := (h₁.load m hd'.1 hd'.2 hd).within
  exact h₂.not_absent (mem_names_of_load hdepth hd)

theorem enter_request {levels : Nat} {st st' : Constructor}
    {q : WString} (hdepth : st.depth = 0)
    (hdeps : host.dependencies q ≠ []) (hnew : q ∉ st.names)
    (hrun : loadOneEnv host (levels + 1) st q = .ok st') :
    ∃ pkgEnv st₁, host.load q = .ok (.ok pkgEnv) ∧
      (host.dependencies q).foldlM (loadOneEnv host levels) st.enter =
        .ok st₁ ∧ st' = st₁.addRequires pkgEnv := by
  cases Loads.of_ok hrun with
  | known hloaded => exact absurd (envLoaded_iff.mp hloaded) hnew
  | absent hload _ =>
      rw [VenvHost.dependencies, hload] at hdeps
      exact absurd rfl hdeps
  | leaf _ hload hnone =>
      rw [dependencies_of_load hload] at hdeps
      exact absurd hnone hdeps
  | late _ hload _ hlate => omega
  | @followed pkgEnv st₁ _ hload _ _ hfold =>
      rw [← dependencies_of_load hload] at hfold
      exact ⟨pkgEnv, st₁, hload, hfold, rfl⟩

/-- The requests before the first one with dependencies. -/
theorem Within.leaves (m : Measured host envs rank bearers) {levels : Nat}
    {st : Constructor} {pre : List WString}
    (hreach : ∀ x ∈ pre, Reachable host envs x)
    (hpre : ∀ x ∈ pre, host.dependencies x = [])
    (hrun : pre.foldlM (loadOneEnv host levels) {} = .ok st) :
    Within host envs st [] ∧ st.depth = 0 ∧ st.requiresEnvs = [] ∧
      ∀ q, host.dependencies q ≠ [] → q ∉ st.names := by
  obtain ⟨h, -⟩ := (within_initial host envs).loadAll m
    (fun x hx => ⟨hreach x hx, by simp⟩) hrun
  obtain ⟨hdepth, hrequires⟩ := loadAll_of_leaves hpre hrun
  refine ⟨h, hdepth, hrequires, ?_⟩
  intro q hq hmem
  obtain ⟨e, he, -, -⟩ := h.mem_requires hmem hq
  rw [hrequires] at he
  exact List.not_mem_nil he

theorem goodFirst_of_run (m : Measured host envs rank bearers)
    {pre post : List WString} {q : WString} {st : Constructor}
    (hreach : ∀ x ∈ pre ++ q :: post, Reachable host envs x)
    (hcover : ∀ env ∈ envs, asciiStrToLower env ∈ pre ++ q :: post)
    (hpre : ∀ x ∈ pre, host.dependencies x = [])
    (hq : host.dependencies q ≠ [])
    (hrun : (pre ++ q :: post).foldlM (loadOneEnv host 32) {} = .ok st) :
    GoodFirst host envs q := by
  obtain ⟨hwithin, hdone⟩ := (within_initial host envs).loadAll m
    (fun x hx => ⟨hreach x hx, by simp⟩) hrun
  obtain ⟨s₁, hpreRun, hrest⟩ := foldlM_append_ok_iff.mp hrun
  obtain ⟨s₂, hqRun, hpostRun⟩ := foldlM_cons_ok_iff.mp hrest
  have hqreach : Reachable host envs q := hreach q (by simp)
  obtain ⟨h₁, hdepth, hrequires, hfresh⟩ := Within.leaves m
    (fun x hx => hreach x (List.mem_append_left _ hx)) hpre hpreRun
  obtain ⟨pkgEnv, s₃, hload, hfold, rfl⟩ :=
    enter_request hdepth hq (hfresh q hq) hqRun
  have henter := h₁.enter hq (hfresh q hq) List.not_mem_nil hqreach
  constructor
  · intro env henv hne d hd habsent
    have hnone : StrictBut q s₁.enter := by
      intro e he
      change e ∈ s₁.requiresEnvs at he
      rw [hrequires] at he
      exact absurd he List.not_mem_nil
    have hstrict₃ : StrictBut q s₃ ∧ 0 < s₃.depth := foldlM_invariant
      (I := fun s => StrictBut q s ∧ 0 < s.depth)
      (fun s x s' _ hs hx => ⟨hs.1.load hs.2 hx,
        lt_of_lt_of_le hs.2 (depth_le_of_loadOneEnv hx)⟩)
      ⟨hnone, Nat.succ_pos _⟩ hfold
    have hstrict₂ : StrictBut q (s₃.addRequires pkgEnv) := by
      intro e he hne' d hd
      rcases List.mem_append.mp he with he | he
      · exact mem_names_addRequires.mpr (.inl (hstrict₃.1 e he hne' d hd))
      · rw [List.mem_singleton.mp he, name_of_load hload] at hne'
        exact absurd rfl hne'
    have hstrict : StrictBut q st ∧ 0 < st.depth := foldlM_invariant
      (I := fun s => StrictBut q s ∧ 0 < s.depth)
      (fun s x s' _ hs hx => ⟨hs.1.load hs.2 hx,
        lt_of_lt_of_le hs.2 (depth_le_of_loadOneEnv hx)⟩)
      ⟨hstrict₂, hstrict₃.2⟩ hpostRun
    have hmem : env ∈ st.names := by
      rcases hwithin.all_done (fun env henv => hdone _ (hcover env henv)) henv
        with hmem | ⟨ec, habsent'⟩
      · exact hmem
      · rw [VenvHost.dependencies, habsent'] at hd
        exact absurd hd List.not_mem_nil
    obtain ⟨e, he, rfl, hdeps⟩ := hwithin.mem_requires hmem
      (List.ne_nil_of_mem hd)
    rw [← hdeps] at hd
    exact hwithin.not_absent (hstrict.1 e he hne d hd) habsent
  · intro a d b hsplit hbefore
    exact henter.own_installed m hqreach hfold hsplit hbefore

/-! ## Runs that succeed -/

theorem load_of_goodFirst (m : Measured host envs rank bearers)
    (hwell : ∀ n, Reachable host envs n → ¬ host.Malformed n) {q : WString}
    (hgood : GoodFirst host envs q) {levels : Nat} {st : Constructor}
    {stack : List WString} {env : WString} (hlevels : Suffices levels st)
    (h : Within host envs st stack) (henv : Reachable host envs env)
    (hstack : ∀ s ∈ stack, rank env < rank s)
    (hq : q ∈ st.names ∨ rank env < rank q) (hinstalled : ¬ host.Absent env)
    (stop : Stop) : loadOneEnv host levels st env ≠ .error stop := by
  induction levels generalizing st stack env with
  | zero => exact absurd hlevels.pos (lt_irrefl 0)
  | succ levels ih =>
      intro hstop
      cases Stops.of_error hstop with
      | thrown hnew hload => exact hwell env henv ⟨_, hload⟩
      | refused hnew hload hdepth => exact hinstalled ⟨_, hload⟩
      | @below pkgEnv _ hnew hload hdeps hdepth hfold =>
          have hne : env ≠ q := by
            rintro rfl
            rcases hq with hq | hq
            · exact not_mem_names hnew hq
            · exact lt_irrefl _ hq
          rw [← dependencies_of_load hload] at hdeps hfold
          have hfresh : env ∉ stack :=
            fun hmem => lt_irrefl _ (hstack env hmem)
          obtain ⟨s, d, hd, ⟨hs, hwithin, hq'⟩, hfail⟩ := foldlM_error
            (I := fun s => Suffices levels s ∧
              Within host envs s (env :: stack) ∧
              (q ∈ s.names ∨ rank env < rank q))
            (fun s d s' hd hs hrun => ⟨hs.1.of_load hrun,
              (hs.2.1.load m (henv.dependency hd) (m.below henv hd hstack)
                hrun).within,
              hs.2.2.imp_left (names_subset_of_load hrun q)⟩)
            ⟨hlevels.enter hdepth,
              h.enter hdeps (not_mem_names hnew) hfresh henv, hq⟩ hfold
          exact ih hs hwithin (henv.dependency hd) (m.below henv hd hstack)
            (hq'.imp_right (lt_trans (m.lower env d ⟨henv, hd⟩)))
            (hgood.others env henv hne d hd) hfail

/-- Packages without dependencies can be loaded at the start. -/
theorem leaf_of_low (hwell : ∀ n, Reachable host envs n → ¬ host.Malformed n)
    {levels : Nat} {st : Constructor} {env : WString}
    (henv : Reachable host envs env) (hdeps : host.dependencies env = [])
    (hdepth : st.depth ≤ 1) (stop : Stop) :
    loadOneEnv host (levels + 1) st env ≠ .error stop := by
  intro hstop
  cases Stops.of_error hstop with
  | thrown hnew hload => exact hwell env henv ⟨_, hload⟩
  | refused hnew hload hlow => omega
  | below hnew hload hsome hlow hfold =>
      rw [dependencies_of_load hload] at hdeps
      exact hsome hdeps

/-- A good first package can be loaded, if nothing was entered before. -/
theorem first_of_goodFirst (m : Measured host envs rank bearers)
    (hwell : ∀ n, Reachable host envs n → ¬ host.Malformed n) {q : WString}
    (hgood : GoodFirst host envs q) (hq : host.dependencies q ≠ [])
    (hreach : Reachable host envs q) {levels : Nat} {st : Constructor}
    (hlevels : Suffices (levels + 2) st) (h : Within host envs st [])
    (hdepth : st.depth = 0) (hnew : q ∉ st.names) (stop : Stop) :
    loadOneEnv host (levels + 2) st q ≠ .error stop := by
  intro hstop
  cases Stops.of_error hstop with
  | thrown _ hload => exact hwell q hreach ⟨_, hload⟩
  | refused _ hload hlow => omega
  | @below pkgEnv _ _ hload _ hlow hfold =>
      rw [← dependencies_of_load hload] at hfold
      have hbelow : ∀ x ∈ host.dependencies q, Reachable host envs x ∧
          ∀ s ∈ [q], rank x < rank s :=
        fun x hx => ⟨hreach.dependency hx, m.below hreach hx (by simp)⟩
      obtain ⟨a, d, b, s, hsplit, ha, hfail⟩ := foldlM_error_split hfold
      rw [hsplit] at hbelow
      have hd := hbelow d (List.mem_append_right _ List.mem_cons_self)
      have hdepth' : st.enter.depth = 1 := congrArg (· + 1) hdepth
      by_cases habsent : host.Absent d
      · -- The counter is still one, since only leaves came before.
        have hleaves : ∀ x ∈ a, host.dependencies x = [] := by
          intro x hx
          by_contra hsome
          exact hgood.own a d b hsplit ⟨x, hx, hsome⟩ habsent
        obtain ⟨ec, hload'⟩ := habsent
        have hnone : host.dependencies d = [] := by
          rw [VenvHost.dependencies, hload']
        have hone := (loadAll_of_leaves hleaves ha).1.trans hdepth'
        exact leaf_of_low hwell hd.1 hnone (le_of_eq hone) _ hfail
      · obtain ⟨hwithin, -⟩ := (h.enter hq hnew List.not_mem_nil hreach).loadAll m
          (fun x hx => hbelow x (List.mem_append_left _ hx)) ha
        have hsuffices : Suffices (levels + 1) s := foldlM_invariant
          (fun s x s' _ hs hx => Suffices.of_load hs hx) (hlevels.enter hlow) ha
        exact load_of_goodFirst m hwell hgood hsuffices hwithin hd.1 hd.2
          (.inr (hd.2 q (by simp))) habsent _ hfail

/-- Requests succeed if the first one with dependencies is good, and everything
after it is installed. -/
theorem run_of_goodFirst (m : Measured host envs rank bearers)
    (hwell : ∀ n, Reachable host envs n → ¬ host.Malformed n)
    {pre post : List WString} {q : WString}
    (hreach : ∀ x ∈ pre ++ q :: post, Reachable host envs x)
    (hpre : ∀ x ∈ pre, host.dependencies x = [])
    (hq : host.dependencies q ≠ []) (hgood : GoodFirst host envs q)
    (hpost : ∀ x ∈ post, ¬ host.Absent x) (stop : Stop) :
    (pre ++ q :: post).foldlM (loadOneEnv host 32) {} ≠ .error stop := by
  intro hstop
  obtain ⟨a, x, b, s, hsplit, ha, hfail⟩ := foldlM_error_split hstop
  have hreach' := hreach
  rw [hsplit] at hreach'
  have hxreach := hreach' x (by simp)
  have hareach : ∀ y ∈ a, Reachable host envs y :=
    fun y hy => hreach' y (List.mem_append_left _ hy)
  have hsuffices : Suffices 32 s := foldlM_invariant
    (fun s x s' _ hs hx => Suffices.of_load hs hx) (suffices_initial le_rfl) ha
  have hfirst : a = pre → x ≠ q := by
    rintro rfl rfl
    obtain ⟨h, hdepth, -, hfresh⟩ := Within.leaves m hareach hpre ha
    exact first_of_goodFirst m hwell hgood hq hxreach hsuffices h hdepth
      (hfresh x hq) _ hfail
  rcases List.append_eq_append_iff.mp hsplit with
    ⟨a', rfl, htail⟩ | ⟨c, rfl, htail⟩
  · cases a' with
    | nil =>
        rw [List.nil_append, List.cons_eq_cons] at htail
        exact hfirst (List.append_nil pre) htail.1.symm
    | cons y a' =>
        rw [List.cons_append, List.cons_eq_cons] at htail
        obtain ⟨rfl, rfl⟩ := htail
        obtain ⟨hwithin, hdone⟩ := (within_initial host envs).loadAll m
          (fun y hy => ⟨hareach y hy, by simp⟩) ha
        have hmem : q ∈ s.names := by
          rcases hdone q (by simp) with hmem | ⟨ec, habsent⟩
          · exact hmem
          · rw [VenvHost.dependencies, habsent] at hq
            exact absurd rfl hq
        exact load_of_goodFirst m hwell hgood hsuffices hwithin hxreach
          (by simp) (.inl hmem) (hpost x (by simp)) _ hfail
  · cases c with
    | nil =>
        rw [List.nil_append, List.cons_eq_cons] at htail
        exact hfirst (List.append_nil a).symm htail.1
    | cons y c =>
        rw [List.cons_append, List.cons_eq_cons] at htail
        obtain ⟨rfl, -⟩ := htail
        have hdepth := (loadAll_of_leaves
          (fun z hz => hpre z (List.mem_append_left _ hz)) ha).1
        exact leaf_of_low hwell hxreach (hpre x (by simp))
          (by rw [hdepth]; exact Nat.zero_le 1) _ hfail

theorem load_of_low (m : Measured host envs rank bearers)
    (hwell : ∀ n, Reachable host envs n → ¬ host.Malformed n)
    (hlow : ∀ st stack, Within host envs st stack → st.depth ≤ 1)
    {levels : Nat} {st : Constructor} {stack : List WString} {env : WString}
    (hlevels : Suffices levels st) (h : Within host envs st stack)
    (henv : Reachable host envs env) (hstack : ∀ s ∈ stack, rank env < rank s)
    (stop : Stop) : loadOneEnv host levels st env ≠ .error stop := by
  induction levels generalizing st stack env with
  | zero => exact absurd hlevels.pos (lt_irrefl 0)
  | succ levels ih =>
      intro hstop
      cases Stops.of_error hstop with
      | thrown hnew hload => exact hwell env henv ⟨_, hload⟩
      | refused hnew hload hdepth => exact absurd (hlow st stack h) (by omega)
      | @below pkgEnv _ hnew hload hdeps hdepth hfold =>
          rw [← dependencies_of_load hload] at hdeps hfold
          have hfresh : env ∉ stack :=
            fun hmem => lt_irrefl _ (hstack env hmem)
          obtain ⟨s, d, hd, ⟨hs, hwithin⟩, hfail⟩ := foldlM_error
            (I := fun s => Suffices levels s ∧
              Within host envs s (env :: stack))
            (fun s d s' hd hs hrun => ⟨hs.1.of_load hrun,
              (hs.2.load m (henv.dependency hd) (m.below henv hd hstack)
                hrun).within⟩)
            ⟨hlevels.enter hdepth,
              h.enter hdeps (not_mem_names hnew) hfresh henv⟩ hfold
          exact ih hs hwithin (henv.dependency hd) (m.below henv hd hstack)
            hfail

/-- Requests succeed if only one package has dependencies. -/
theorem run_of_one (m : Measured host envs rank bearers)
    (hwell : ∀ n, Reachable host envs n → ¬ host.Malformed n)
    (hone : ∀ env env', Reachable host envs env → Reachable host envs env' →
      host.dependencies env ≠ [] → host.dependencies env' ≠ [] → env = env')
    {rs : List WString} (hreach : ∀ x ∈ rs, Reachable host envs x)
    (stop : Stop) : rs.foldlM (loadOneEnv host 32) {} ≠ .error stop := by
  have hlow : ∀ st stack, Within host envs st stack → st.depth ≤ 1 := by
    intro st stack h
    by_cases hsome : ∃ q, Reachable host envs q ∧ host.dependencies q ≠ []
    · obtain ⟨q, hqreach, hq⟩ := hsome
      have hle : st.depth ≤ [q].length := h.depth_le fun env henv hdeps =>
        List.mem_singleton.mpr (hone env q henv hqreach hdeps hq)
      exact hle
    · have hle : st.depth ≤ ([] : List WString).length :=
        h.depth_le fun env henv hdeps => absurd ⟨env, henv, hdeps⟩ hsome
      exact le_trans hle (Nat.zero_le 1)
  intro hstop
  obtain ⟨s, x, hx, ⟨hs, hwithin⟩, hfail⟩ := foldlM_error
    (I := fun s => Suffices 32 s ∧ Within host envs s [])
    (fun s x s' hx hs hrun => ⟨hs.1.of_load hrun,
      (hs.2.load m (hreach x hx) (by simp) hrun).within⟩)
    ⟨suffices_initial le_rfl, within_initial host envs⟩ hstop
  exact load_of_low m hwell hlow hs hwithin (hreach x hx) (by simp) _ hfail

/-- A package that is not installed cannot be the last request, if two packages
have dependencies. -/
theorem run_absent_last (m : Measured host envs rank bearers)
    {rs : List WString} (hreach : ∀ x ∈ rs, Reachable host envs x)
    {last : WString} (habsent : host.Absent last)
    (hcover : ∀ env ∈ envs, asciiStrToLower env ∈ rs ++ [last])
    {env env' : WString} (henv : Reachable host envs env)
    (henv' : Reachable host envs env') (hdeps : host.dependencies env ≠ [])
    (hdeps' : host.dependencies env' ≠ []) (hne : env ≠ env')
    (st : Constructor) :
    (rs ++ [last]).foldlM (loadOneEnv host 32) {} ≠ .ok st := by
  intro hrun
  obtain ⟨s, hrs, hlast⟩ := foldlM_append_ok_iff.mp hrun
  obtain ⟨s', hlast, -⟩ := foldlM_cons_ok_iff.mp hlast
  obtain ⟨h, hdone⟩ := (within_initial host envs).loadAll m
    (fun x hx => ⟨hreach x hx, by simp⟩) hrs
  have hrequests : ∀ env ∈ envs, asciiStrToLower env ∈ s.names ∨
      host.Absent (asciiStrToLower env) := by
    intro env henv
    rcases List.mem_append.mp (hcover env henv) with hmem | hmem
    · exact hdone _ hmem
    · rw [List.mem_singleton.mp hmem]
      exact .inr habsent
  have hloaded : ∀ n, Reachable host envs n → host.dependencies n ≠ [] →
      n ∈ s.requiresEnvs.map LoadedEnv.name := by
    intro n hn hsome
    rcases h.all_done hrequests hn with hmem | ⟨ec, hnone⟩
    · obtain ⟨e, he, rfl, -⟩ := h.mem_requires hmem hsome
      exact List.mem_map_of_mem he
    · rw [VenvHost.dependencies, hnone] at hsome
      exact absurd rfl hsome
  have hdepth : 1 < s.depth := by
    have hsub : [env, env'] ⊆ s.requiresEnvs.map LoadedEnv.name := by
      simp [hloaded env henv hdeps, hloaded env' henv' hdeps']
    have hnodup : [env, env'].Nodup := by simp [hne]
    have hle := (hnodup.subperm hsub).length_le
    rw [List.length_map] at hle
    rw [h.depth]
    exact lt_of_lt_of_le (by decide : 1 < 2) (le_trans hle (Nat.le_add_right _ _))
  cases Loads.of_ok hlast with
  | known hloaded => exact h.not_absent (envLoaded_iff.mp hloaded) habsent
  | absent hload hlow => omega
  | leaf hnew hload _ =>
      obtain ⟨ec, hnone⟩ := habsent
      rw [hload] at hnone
      cases hnone
  | late hnew hload _ _ =>
      obtain ⟨ec, hnone⟩ := habsent
      rw [hload] at hnone
      cases hnone
  | followed hnew hload _ _ hfold =>
      obtain ⟨ec, hnone⟩ := habsent
      rw [hload] at hnone
      cases hnone

theorem mem_names_iff_of_run (m : Measured host envs rank bearers)
    {rs : List WString} (hreach : ∀ x ∈ rs, Reachable host envs x)
    (hcover : ∀ env ∈ envs, asciiStrToLower env ∈ rs) {st : Constructor}
    (hrun : rs.foldlM (loadOneEnv host 32) {} = .ok st) (n : WString) :
    n ∈ st.names ↔ Reachable host envs n ∧ ¬ host.Absent n := by
  obtain ⟨h, hdone⟩ := (within_initial host envs).loadAll m
    (fun x hx => ⟨hreach x hx, by simp⟩) hrun
  constructor
  · intro hn
    exact ⟨h.reach n (.inl hn), h.not_absent hn⟩
  · rintro ⟨hn, hinstalled⟩
    exact (h.all_done (fun env henv => hdone _ (hcover env henv)) hn).resolve_right
      hinstalled

theorem not_malformed_of_run (m : Measured host envs rank bearers)
    {rs : List WString} (hreach : ∀ x ∈ rs, Reachable host envs x)
    (hcover : ∀ env ∈ envs, asciiStrToLower env ∈ rs) {st : Constructor}
    (hrun : rs.foldlM (loadOneEnv host 32) {} = .ok st) {n : WString}
    (hn : Reachable host envs n) : ¬ host.Malformed n := by
  rintro ⟨ec, hload⟩
  have hinstalled : ¬ host.Absent n := by
    rintro ⟨ec', hload'⟩
    rw [hload] at hload'
    cases hload'
  have hmem := (mem_names_iff_of_run m hreach hcover hrun n).mpr ⟨hn, hinstalled⟩
  obtain ⟨h, -⟩ := (within_initial host envs).loadAll m
    (fun x hx => ⟨hreach x hx, by simp⟩) hrun
  obtain ⟨e, he, rfl⟩ := List.mem_map.mp hmem
  rw [h.loaded e he] at hload
  cases hload

end Steps

/-! ## Orders -/

section Orders

variable {host : VenvHost} {envs bearers : List WString} {rank : WString → Nat}

/-- `InitializeEnvs` returns true. -/
def Succeeds (host : VenvHost) (envs : List WString) : Prop :=
  ∃ st, loadEnvs host 32 envs = .ok st

theorem reachable_of_perm (host : VenvHost) {envs' : List WString}
    (h : envs'.Perm envs) :
    ∀ x ∈ envs'.map asciiStrToLower, Reachable host envs x := by
  intro x hx
  obtain ⟨env, henv, rfl⟩ := List.mem_map.mp hx
  exact .request (h.mem_iff.mp henv)

theorem cover_of_perm {envs' : List WString} (h : envs'.Perm envs) :
    ∀ env ∈ envs, asciiStrToLower env ∈ envs'.map asciiStrToLower :=
  fun _ henv => List.mem_map_of_mem (h.mem_iff.mpr henv)

theorem keys_of_run (m : Measured host envs rank bearers)
    {envs' : List WString} (hperm : envs'.Perm envs) {st : Constructor}
    (hrun : loadEnvs host 32 envs' = .ok st) (k : WString) :
    k ∈ (st.standardEnvs ++ st.requiresEnvs).map envKey ↔
      ∃ n, Reachable host envs n ∧ ¬ host.Absent n ∧ asciiStrToLower n = k := by
  have hmem := mem_names_iff_of_run m (reachable_of_perm host hperm)
    (cover_of_perm hperm) hrun
  constructor
  · intro hk
    obtain ⟨e, he, rfl⟩ := List.mem_map.mp hk
    have hname := (hmem e.name).mp (List.mem_map_of_mem he)
    exact ⟨e.name, hname.1, hname.2, rfl⟩
  · rintro ⟨n, hn, hinstalled, rfl⟩
    exact mem_keys_of_mem_names ((hmem n).mpr ⟨hn, hinstalled⟩)

/-- Two orders have the same outcome if both succeed or both fail. -/
theorem sameOutcome_iff (m : Measured host envs rank bearers)
    {envs' : List WString} (hperm : envs'.Perm envs) (sm : Simulator) :
    SameOutcome (initializeEnvs host 32 envs' sm)
        (initializeEnvs host 32 envs sm) ↔
      (Succeeds host envs' ↔ Succeeds host envs) := by
  have herror : ∀ {requests stop}, loadEnvs host 32 requests = .error stop →
      initializeEnvs host 32 requests sm = .error stop := by
    intro requests stop hload
    cases requests with
    | nil => cases hload
    | cons env requests => rw [initializeEnvs, if_neg (by simp), hload]
  cases hload' : loadEnvs host 32 envs' with
  | error stop' =>
      rw [herror hload']
      have hfails : ¬ Succeeds host envs' := by
        rintro ⟨st, hst⟩
        rw [hload'] at hst
        cases hst
      cases hload : loadEnvs host 32 envs with
      | error stop =>
          rw [herror hload]
          refine iff_of_true trivial (iff_of_false hfails ?_)
          rintro ⟨st, hst⟩
          rw [hload] at hst
          cases hst
      | ok st =>
          obtain ⟨f, hrun, -⟩ := initializeEnvs_of_load hload sm
          rw [hrun]
          exact iff_of_false id fun h => hfails (h.mpr ⟨st, hload⟩)
  | ok st' =>
      obtain ⟨f', hrun', havailable', -⟩ := initializeEnvs_of_load hload' sm
      rw [hrun']
      cases hload : loadEnvs host 32 envs with
      | error stop =>
          rw [herror hload]
          refine iff_of_false id fun h => ?_
          obtain ⟨st, hst⟩ := h.mp ⟨st', hload'⟩
          rw [hload] at hst
          cases hst
      | ok st =>
          obtain ⟨f, hrun, havailable, -⟩ := initializeEnvs_of_load hload sm
          rw [hrun]
          refine iff_of_true ?_ (iff_of_true ⟨st', hload'⟩ ⟨st, hload⟩)
          intro k
          rw [havailable', havailable, mem_keys_firsts, mem_keys_firsts,
            keys_of_run m hperm hload', keys_of_run m (List.Perm.refl envs) hload]

theorem succeeds_of_not_error {envs' : List WString}
    (h : ∀ stop, loadEnvs host 32 envs' ≠ .error stop) :
    Succeeds host envs' := by
  cases hload : loadEnvs host 32 envs' with
  | error stop => exact absurd hload (h stop)
  | ok st => exact ⟨st, hload⟩

theorem exists_first_bearing (host : VenvHost) {rs : List WString}
    (h : ∃ q ∈ rs, host.dependencies q ≠ []) :
    ∃ pre q post, rs = pre ++ q :: post ∧ host.dependencies q ≠ [] ∧
      ∀ x ∈ pre, host.dependencies x = [] := by
  obtain ⟨q₀, hmem, hdeps⟩ := h
  obtain ⟨pre, q, post, heq, hkey, hpre⟩ := exists_first
    (fun x => (host.dependencies x).isEmpty) hmem
  have hfalse : (host.dependencies q₀).isEmpty = false := by
    simpa using hdeps
  refine ⟨pre, q, post, heq, ?_, ?_⟩
  · intro hnone
    rw [hfalse, hnone] at hkey
    cases hkey
  · intro x hx
    by_contra hsome
    apply hpre
    rw [hfalse]
    exact List.mem_map.mpr ⟨x, hx, by simpa using hsome⟩

/-- A package with dependencies is reached from a request with dependencies. -/
theorem exists_bearing_request {env : WString} (h : Reachable host envs env)
    (hdeps : host.dependencies env ≠ []) :
    ∃ r ∈ envs, host.dependencies (asciiStrToLower r) ≠ [] := by
  induction h with
  | request hmem => exact ⟨_, hmem, hdeps⟩
  | dependency henv hd ih => exact ih (List.ne_nil_of_mem hd)

theorem exists_goodFirst (m : Measured host envs rank bearers)
    {envs' : List WString} (hperm : envs'.Perm envs)
    (hbearing : ∃ r ∈ envs, host.dependencies (asciiStrToLower r) ≠ [])
    (h : Succeeds host envs') :
    ∃ r ∈ envs, host.dependencies (asciiStrToLower r) ≠ [] ∧
      GoodFirst host envs (asciiStrToLower r) := by
  obtain ⟨st, hrun⟩ := h
  obtain ⟨r₀, hr₀, hdeps₀⟩ := hbearing
  obtain ⟨pre, q, post, heq, hq, hpre⟩ := exists_first_bearing host
    ⟨_, cover_of_perm hperm r₀ hr₀, hdeps₀⟩
  have hreach := reachable_of_perm host hperm
  have hcover := cover_of_perm hperm
  obtain ⟨r, hr, hname⟩ : ∃ r ∈ envs', asciiStrToLower r = q := by
    apply List.mem_map.mp
    rw [heq]
    simp
  rw [loadEnvs, heq] at hrun
  rw [heq] at hreach hcover
  rw [← hname] at hq hrun hreach hcover
  exact ⟨r, hperm.mem_iff.mp hr, hq,
    goodFirst_of_run m hreach hcover hpre hq hrun⟩

/-- If every request with dependencies is good as the first one, and all requests
are installed, every order succeeds. -/
theorem succeeds_of_all_good (m : Measured host envs rank bearers)
    (hwell : ∀ n, Reachable host envs n → ¬ host.Malformed n)
    (hinstalled : ∀ env ∈ envs, ¬ host.Absent (asciiStrToLower env))
    (hgood : ∀ env ∈ envs, host.dependencies (asciiStrToLower env) ≠ [] →
      GoodFirst host envs (asciiStrToLower env))
    {envs' : List WString} (hperm : envs'.Perm envs) :
    Succeeds host envs' := by
  apply succeeds_of_not_error
  intro stop
  have hreach := reachable_of_perm host hperm
  have hrequest : ∀ x ∈ envs'.map asciiStrToLower,
      ∃ env ∈ envs, asciiStrToLower env = x := by
    intro x hx
    obtain ⟨env, henv, rfl⟩ := List.mem_map.mp hx
    exact ⟨env, hperm.mem_iff.mp henv, rfl⟩
  by_cases hbearing : ∃ q ∈ envs'.map asciiStrToLower,
      host.dependencies q ≠ []
  · obtain ⟨pre, q, post, heq, hq, hpre⟩ := exists_first_bearing host hbearing
    rw [heq] at hreach hrequest
    rw [loadEnvs, heq]
    obtain ⟨env, henv, rfl⟩ := hrequest q (by simp)
    refine run_of_goodFirst m hwell hreach hpre hq (hgood env henv hq) ?_ stop
    intro x hx
    obtain ⟨env', henv', rfl⟩ := hrequest x (by simp [hx])
    exact hinstalled env' henv'
  · refine run_of_one m hwell ?_ hreach stop
    intro env env' henv henv' hdeps
    obtain ⟨r, hr, hdeps'⟩ := exists_bearing_request henv hdeps
    exact absurd ⟨_, cover_of_perm hperm r hr, hdeps'⟩ hbearing

theorem exists_order_succeeds (m : Measured host envs rank bearers)
    (hwell : ∀ n, Reachable host envs n → ¬ host.Malformed n) {r : WString}
    (hr : r ∈ envs) (hdeps : host.dependencies (asciiStrToLower r) ≠ [])
    (hgood : GoodFirst host envs (asciiStrToLower r)) :
    ∃ envs' : List WString, envs'.Perm envs ∧ Succeeds host envs' := by
  classical
  let missing : WString → Bool := fun env => decide (host.Absent (asciiStrToLower env))
  let rest := envs.erase r
  have hperm : (rest.filter missing ++ r :: rest.filter fun env =>
      !missing env).Perm envs := by
    refine List.perm_middle.trans ?_
    refine List.Perm.trans ?_ (List.perm_cons_erase hr).symm
    exact (List.filter_append_perm missing rest).cons r
  refine ⟨_, hperm, succeeds_of_not_error fun stop => ?_⟩
  have hreach := reachable_of_perm host hperm
  rw [loadEnvs]
  rw [List.map_append, List.map_cons] at hreach ⊢
  refine run_of_goodFirst m hwell hreach ?_ hdeps hgood ?_ stop
  · intro x hx
    obtain ⟨env, henv, rfl⟩ := List.mem_map.mp hx
    obtain ⟨ec, hload⟩ := of_decide_eq_true (List.mem_filter.mp henv).2
    rw [VenvHost.dependencies, hload]
  · intro x hx
    obtain ⟨env, henv, rfl⟩ := List.mem_map.mp hx
    have hnot := (List.mem_filter.mp henv).2
    simpa [missing] using hnot

theorem exists_order_fails (m : Measured host envs rank bearers)
    {r : WString} (hr : r ∈ envs) (habsent : host.Absent (asciiStrToLower r))
    {env env' : WString} (henv : Reachable host envs env)
    (henv' : Reachable host envs env') (hdeps : host.dependencies env ≠ [])
    (hdeps' : host.dependencies env' ≠ []) (hne : env ≠ env') :
    ∃ envs' : List WString, envs'.Perm envs ∧ ¬ Succeeds host envs' := by
  classical
  have hperm : (envs.erase r ++ [r]).Perm envs :=
    (List.perm_append_singleton r _).trans (List.perm_cons_erase hr).symm
  refine ⟨_, hperm, ?_⟩
  rintro ⟨st, hrun⟩
  have hreach := reachable_of_perm host hperm
  have hcover := cover_of_perm hperm
  rw [loadEnvs] at hrun
  rw [List.map_append, List.map_singleton] at hrun hreach hcover
  exact run_absent_last m (fun x hx => hreach x (List.mem_append_left _ hx))
    habsent hcover henv henv' hdeps hdeps' hne st hrun

theorem exists_order_fails_first (m : Measured host envs rank bearers)
    {r : WString} (hr : r ∈ envs)
    (hdeps : host.dependencies (asciiStrToLower r) ≠ [])
    (hbad : ¬ GoodFirst host envs (asciiStrToLower r)) :
    ∃ envs' : List WString, envs'.Perm envs ∧ ¬ Succeeds host envs' := by
  classical
  have hperm : (r :: envs.erase r).Perm envs := (List.perm_cons_erase hr).symm
  refine ⟨_, hperm, ?_⟩
  rintro ⟨st, hrun⟩
  have hreach := reachable_of_perm host hperm
  have hcover := cover_of_perm hperm
  rw [loadEnvs] at hrun
  rw [List.map_cons, ← List.nil_append (asciiStrToLower r ::
    (envs.erase r).map asciiStrToLower)] at hrun hreach hcover
  exact hbad (goodFirst_of_run m hreach hcover (by simp) hdeps hrun)

end Orders

/-- As long as the counter does not reach its limit, the order of the requests
makes no difference exactly if it is safe. -/
theorem orderIndependent_iff {host : VenvHost} {envs : List WString}
    (h : WithinLimit host envs) :
    OrderIndependent host envs ↔ OrderSafe host envs := by
  obtain ⟨rank, bearers, m⟩ := h.measured
  have hsame : OrderIndependent host envs ↔
      ∀ envs' : List WString, envs'.Perm envs →
        (Succeeds host envs' ↔ Succeeds host envs) := by
    constructor
    · intro hindependent envs' hperm
      exact (sameOutcome_iff m hperm {}).mp (hindependent envs' hperm {})
    · intro hall envs' hperm sm
      exact (sameOutcome_iff m hperm sm).mpr (hall envs' hperm)
  rw [hsame]
  constructor
  · intro hall
    by_contra hunsafe
    simp only [OrderSafe, not_or, not_forall, not_exists, not_and,
      not_not, exists_prop] at hunsafe
    obtain ⟨⟨env, env', henv, henv', hdeps, hdeps', hne⟩, hwell, hnot,
      r, hr, hbearing, hgood⟩ := hunsafe
    obtain ⟨good, hgoodPerm, hsucceeds⟩ :=
      exists_order_succeeds m hwell hr hbearing hgood
    obtain ⟨bad, hbadPerm, hfails⟩ :
        ∃ envs' : List WString, envs'.Perm envs ∧ ¬ Succeeds host envs' := by
      by_cases hinstalled : ∀ env ∈ envs, ¬ host.Absent (asciiStrToLower env)
      · obtain ⟨r', hr', hbearing', hbad⟩ := hnot hinstalled
        exact exists_order_fails_first m hr' hbearing' hbad
      · simp only [not_forall, not_not, exists_prop] at hinstalled
        obtain ⟨r', hr', habsent⟩ := hinstalled
        exact exists_order_fails m hr' habsent henv henv' hdeps hdeps' hne
    exact hfails ((hall bad hbadPerm).mpr ((hall good hgoodPerm).mp hsucceeds))
  · intro hsafe envs' hperm
    by_cases hwell : ∃ env, Reachable host envs env ∧ host.Malformed env
    · -- Every order fails on the malformed package.
      obtain ⟨env, henv, hmalformed⟩ := hwell
      have hfails : ∀ requests : List WString, requests.Perm envs →
          ¬ Succeeds host requests := by
        rintro requests hrequests ⟨st, hrun⟩
        exact not_malformed_of_run m (reachable_of_perm host hrequests)
          (cover_of_perm hrequests) hrun henv hmalformed
      exact iff_of_false (hfails envs' hperm) (hfails envs (List.Perm.refl _))
    · have hwell' : ∀ n, Reachable host envs n → ¬ host.Malformed n :=
        fun n hn hmalformed => hwell ⟨n, hn, hmalformed⟩
      have hone : (∀ env env', Reachable host envs env →
          Reachable host envs env' → host.dependencies env ≠ [] →
          host.dependencies env' ≠ [] → env = env') →
          ∀ requests : List WString, requests.Perm envs →
            Succeeds host requests := by
        intro hone requests hrequests
        exact succeeds_of_not_error fun stop => run_of_one m hwell' hone
          (reachable_of_perm host hrequests) stop
      rcases hsafe with hsafe | hsafe | ⟨hinstalled, hgood⟩ | hbad
      · exact iff_of_true (hone hsafe envs' hperm)
          (hone hsafe envs (List.Perm.refl _))
      · exact absurd hsafe hwell
      · exact iff_of_true (succeeds_of_all_good m hwell' hinstalled hgood hperm)
          (succeeds_of_all_good m hwell' hinstalled hgood (List.Perm.refl _))
      · by_cases hbearing : ∃ r ∈ envs,
            host.dependencies (asciiStrToLower r) ≠ []
        · have hfails : ∀ requests : List WString, requests.Perm envs →
              ¬ Succeeds host requests := by
            intro requests hrequests hsucceeds
            obtain ⟨r, hr, hdeps, hgood⟩ :=
              exists_goodFirst m hrequests hbearing hsucceeds
            exact hbad r hr hdeps hgood
          exact iff_of_false (hfails envs' hperm) (hfails envs (List.Perm.refl _))
        · have hnone : ∀ env env', Reachable host envs env →
              Reachable host envs env' → host.dependencies env ≠ [] →
              host.dependencies env' ≠ [] → env = env' :=
            fun env env' henv henv' hdeps hdeps' =>
              absurd (exists_bearing_request henv hdeps) hbearing
          exact iff_of_true (hone hnone envs' hperm)
            (hone hnone envs (List.Perm.refl _))

/-! ### A request that is not installed -/

theorem withinLimit_two : WithinLimit (siblingHost 1) (siblingEnvs 1) where
  chains := acyclic_two.chains
  few := ⟨siblingNodes 1, by decide, fun _ henv _ => flat_two.mem_nodes henv⟩

/-- Two packages with dependencies, all of them installed. -/
theorem orderIndependent_two :
    OrderIndependent (siblingHost 1) (siblingEnvs 1) := by
  have hinstalled : ∀ env, Reachable (siblingHost 1) (siblingEnvs 1) env →
      ¬ (siblingHost 1).Absent env := by
    rintro env henv ⟨ec, habsent⟩
    obtain ⟨pkgEnv, hload⟩ := acyclic_two.installed env henv
    rw [habsent] at hload
    cases hload
  apply (orderIndependent_iff withinLimit_two).mpr
  refine .inr (.inr (.inl ⟨fun env henv => hinstalled _ (.request henv), ?_⟩))
  intro env henv hdeps
  constructor
  · intro n hn hne d hd
    exact hinstalled d (hn.dependency hd)
  · intro a d b hsplit hbefore
    refine hinstalled d ((Reachable.request henv).dependency ?_)
    rw [hsplit]
    simp

/-- With one more that is not installed, it has to be requested before them. -/
theorem orderIndependent_absent :
    ¬ OrderIndependent (siblingHost 1) (wide "none" :: siblingEnvs 1) := by
  intro h
  have hsame := h (siblingEnvs 1 ++ [wide "none"])
    (List.perm_append_singleton _ _) {}
  have hfails : (initializeEnvs (siblingHost 1) 32
      (siblingEnvs 1 ++ [wide "none"]) {}).toOption.isSome = false := by
    decide
  have hsucceeds : (initializeEnvs (siblingHost 1) 32
      (wide "none" :: siblingEnvs 1) {}).toOption.isSome = true := by
    decide
  revert hsame hfails hsucceeds
  cases initializeEnvs (siblingHost 1) 32 (siblingEnvs 1 ++ [wide "none"]) {} with
  | ok f =>
      intro _ hfails
      cases hfails
  | error stop =>
      cases initializeEnvs (siblingHost 1) 32 (wide "none" :: siblingEnvs 1) {} with
      | ok f =>
          intro hsame
          exact absurd hsame id
      | error stop' =>
          intro _ _ hsucceeds
          cases hsucceeds

end Baulk.Env
