import Baulk.Env.Block

/-!
# The environment of a child process

A simulator starts from the block of the own process and is changed by calls in any order; the
block that `MakeEnv` gives is the environment of the process that is started.  When that process
reads its environment in the same way, it finds the variables of the simulator, unless one of
them has the name of a variable that the simulator keeps apart.
-/

namespace Baulk.Env

open Support (components sublist_of_mem_components mem_of_mem_firsts Reaches)

/-! ## Sound simulators -/

/-- A name that can be read back: it has no null character and no equals sign. -/
def IsKey (key : WString) : Prop :=
  (0 : WChar) ∉ key ∧ (0x3D : WChar) ∉ key

/-- What every call keeps of a simulator. -/
structure Sound (sm : Simulator) : Prop where
  apart : KeysApart sm.envmap
  keys : ∀ entry ∈ sm.envmap, IsKey entry.1
  values : ∀ entry ∈ sm.envmap, (0 : WChar) ∉ entry.2
  paths : ∀ p ∈ sm.paths, (0 : WChar) ∉ p
  pathexts : ∀ e ∈ sm.pathexts, (0 : WChar) ∉ e

theorem Sound.withPaths {sm : Simulator} (h : Sound sm) {paths : List WString}
    (hpaths : ∀ p ∈ paths, (0 : WChar) ∉ p) : Sound { sm with paths := paths } :=
  { h with paths := hpaths }

theorem Sound.withPathexts {sm : Simulator} (h : Sound sm) {exts : List WString}
    (hexts : ∀ e ∈ exts, (0 : WChar) ∉ e) : Sound { sm with pathexts := exts } :=
  { h with pathexts := hexts }

theorem Sound.setEnv {sm : Simulator} (h : Sound sm) {key value : WString} (hkey : IsKey key)
    (hvalue : (0 : WChar) ∉ value) (force : Bool) : Sound (sm.setEnv key value force) := by
  unfold Simulator.setEnv
  split_ifs with hany hforce
  · have hmap {entry : WString × WString} (hentry : entry ∈ sm.envmap.map fun entry =>
        if equalsIgnoreCase entry.1 key then (entry.1, value) else entry) :
        IsKey entry.1 ∧ (0 : WChar) ∉ entry.2 := by
      obtain ⟨old, hold, rfl⟩ := List.mem_map.mp hentry
      split_ifs
      · exact ⟨h.keys old hold, hvalue⟩
      · exact ⟨h.keys old hold, h.values old hold⟩
    refine { h with
    apart := ?_, keys := fun _ he => (hmap he).1, values := fun _ he => (hmap he).2 }
    refine h.apart.map _ fun {a b} hab => ?_
    split_ifs <;> exact hab
  · exact h
  · have hnew : ∀ entry ∈ sm.envmap, equalsIgnoreCase entry.1 key = false := fun entry hentry =>
      Bool.eq_false_of_not_eq_true fun hsame => hany (List.any_eq_true.mpr ⟨entry, hentry, hsame⟩)
    have happend {entry : WString × WString} (hentry : entry ∈ sm.envmap ++ [(key, value)]) :
        IsKey entry.1 ∧ (0 : WChar) ∉ entry.2 := by
      rw [List.mem_append, List.mem_singleton] at hentry
      rcases hentry with hold | rfl
      · exact ⟨h.keys entry hold, h.values entry hold⟩
      · exact ⟨hkey, hvalue⟩
    refine { h with
      apart := ?_, keys := fun _ he => (happend he).1, values := fun _ he => (happend he).2 }
    refine List.pairwise_append.mpr ⟨h.apart, List.pairwise_singleton _ _, ?_⟩
    rintro entry hentry other hother
    rw [List.mem_singleton] at hother
    rw [hother]
    exact hnew entry hentry

theorem isKey_splitEnv {nv : WString} (h : (0 : WChar) ∉ nv) :
    IsKey (Simulator.splitEnv nv).1 ∧ (0 : WChar) ∉ (Simulator.splitEnv nv).2 := by
  refine ⟨⟨fun hmem => h ((List.takeWhile_prefix _).mem hmem), fun hmem => ?_⟩, fun hmem => ?_⟩
  · exact absurd (List.mem_takeWhile_imp hmem) (by simp)
  · exact h ((List.dropWhile_suffix _).mem (List.mem_of_mem_drop hmem))

/-! ## Texts without null characters -/

theorem nul_not_mem_pathCat {p : WString} (h : (0 : WChar) ∉ p) : (0 : WChar) ∉ pathCat p := by
  intro hmem
  rcases mem_pathCat hmem with hp | hslash
  · exact h hp
  · exact absurd hslash (by decide)

theorem nul_not_mem_components {s part : WString} (h : (0 : WChar) ∉ s)
    (hpart : part ∈ components (· == 0x3B) s) : (0 : WChar) ∉ part := fun hmem =>
  h ((sublist_of_mem_components hpart).mem hmem)

theorem asciiToLower_eq_zero {c : WChar} (h : asciiToLower c = 0) : c = 0 := by
  unfold asciiToLower at h
  split_ifs at h with hupper
  · -- an upper case letter does not become a null character
    have hlow : 0x41 ≤ c.toNat := hupper.1
    have hhigh : c.toNat ≤ 0x5A := hupper.2
    have hsum := congrArg UInt16.toNat h
    rw [UInt16.toNat_add] at hsum
    change (c.toNat + 32) % 65536 = 0 at hsum
    omega
  · exact h

theorem nul_not_mem_cleanupPathExt {pathext : WString} {exts : List WString}
    (h : (0 : WChar) ∉ pathext) (hexts : ∀ e ∈ exts, (0 : WChar) ∉ e) :
    ∀ e ∈ cleanupPathExt pathext exts, (0 : WChar) ∉ e := by
  unfold cleanupPathExt
  dsimp only
  split_ifs
  · decide
  · intro e he
    rcases List.mem_append.mp he with hold | hnew
    · exact hexts e hold
    · obtain ⟨part, hpart, rfl⟩ := List.mem_map.mp hnew
      have hlower : (0 : WChar) ∉ asciiStrToLower part := by
        intro hmem
        obtain ⟨c, hc, hzero⟩ := List.mem_map.mp hmem
        exact nul_not_mem_components h hpart (asciiToLower_eq_zero hzero ▸ hc)
      split_ifs
      · exact hlower
      · rw [List.mem_cons, not_or]
        exact ⟨by decide, hlower⟩

theorem nul_not_mem_organizePaths {paths : List WString} (h : ∀ p ∈ paths, (0 : WChar) ∉ p) :
    ∀ p ∈ organizePaths paths, (0 : WChar) ∉ p := by
  intro p hp
  obtain ⟨q, hq, rfl⟩ := List.mem_map.mp (mem_of_mem_firsts _ hp)
  exact nul_not_mem_pathCat (h q hq)

/-! ## Every call keeps a simulator sound -/

theorem Sound.emplaceAll {sm : Simulator} (h : Sound sm) {entries : List (WString × WString)}
    (hentries : ∀ entry ∈ entries, IsKey entry.1 ∧ (0 : WChar) ∉ entry.2) :
    Sound (emplaceAll sm entries) := by
  induction entries generalizing sm with
  | nil => exact h
  | cons entry entries ih =>
      obtain ⟨hkey, hvalue⟩ := hentries entry List.mem_cons_self
      exact ih (h.setEnv hkey hvalue false) fun other hother =>
        hentries other (List.mem_cons_of_mem entry hother)

theorem Sound.readEntry {sm : Simulator} (h : Sound sm) {entry : WString}
    (hentry : (0 : WChar) ∉ entry) : Sound (readEntry sm entry) := by
  obtain ⟨hkey, hvalue⟩ := isKey_splitEnv hentry
  unfold Env.readEntry
  dsimp only
  split_ifs
  · refine h.withPaths fun p hp => ?_
    rcases List.mem_append.mp hp with hold | hnew
    · exact h.paths p hold
    · obtain ⟨part, hpart, rfl⟩ := List.mem_map.mp hnew
      exact nul_not_mem_pathCat (nul_not_mem_components hvalue hpart)
  · exact h.withPathexts (nul_not_mem_cleanupPathExt hvalue h.pathexts)
  · exact h.setEnv hkey hvalue false
  · exact h

theorem Sound.readCleanEntry {sm : Simulator} (h : Sound sm) {entry : WString}
    (hentry : (0 : WChar) ∉ entry) : Sound (readCleanEntry sm entry) := by
  obtain ⟨hkey, hvalue⟩ := isKey_splitEnv hentry
  unfold Env.readCleanEntry
  dsimp only
  split_ifs
  · exact h.withPathexts (nul_not_mem_cleanupPathExt hvalue h.pathexts)
  · exact h.setEnv hkey hvalue false
  · exact h
  · exact h

theorem Sound.foldl_entries {read : Simulator → WString → Simulator} {sm : Simulator}
    (h : Sound sm)
    (hread : ∀ sm entry, Sound sm → (0 : WChar) ∉ entry → Sound (read sm entry))
    (block : WString) : Sound ((blockEntries block).foldl read sm) := by
  have hentries : ∀ entry ∈ blockEntries block, (0 : WChar) ∉ entry := fun _ hentry =>
    nul_not_mem_of_blockEntries hentry
  generalize blockEntries block = entries at hentries
  induction entries generalizing sm with
  | nil => exact h
  | cons entry entries ih =>
      exact ih (hread _ _ h (hentries entry List.mem_cons_self)) fun other hother =>
        hentries other (List.mem_cons_of_mem entry hother)

theorem Sound.initializeEnv {sm : Simulator} (h : Sound sm) (block : Option WString) :
    Sound (initializeEnv sm block) := by
  cases block with
  | none => exact h
  | some block => exact h.foldl_entries (fun _ _ h hentry => h.readEntry hentry) block

theorem Sound.initializeCleanupEnv {sm : Simulator} (h : Sound sm) {systemroot : WString}
    (hroot : (0 : WChar) ∉ systemroot) (block : Option WString) :
    Sound (initializeCleanupEnv systemroot sm block) := by
  cases block with
  | none => exact h
  | some block =>
      have hread := h.foldl_entries (fun _ _ h hentry => h.readCleanEntry hentry) block
      refine hread.withPaths fun p hp => ?_
      rcases List.mem_append.mp hp with hold | hnew
      · exact hread.paths p hold
      · have happend {t : WString} (ht : (0 : WChar) ∉ t) : (0 : WChar) ∉ systemroot ++ t :=
          fun hmem => (List.mem_append.mp hmem).elim hroot ht
        simp only [makePathEnv, List.mem_cons, List.not_mem_nil, or_false] at hnew
        rcases hnew with rfl | rfl | rfl | rfl
        · exact happend (by decide)
        · exact hroot
        · exact happend (by decide)
        · exact happend (by decide)

/-- The names of `AddBashCompatible`. -/
theorem isKey_bashVariables {argv : List WString} {processId commandLine userprofile : WString}
    (hargv : ∀ arg ∈ argv, (0 : WChar) ∉ arg) (hid : (0 : WChar) ∉ processId)
    (hline : (0 : WChar) ∉ commandLine) (hprofile : (0 : WChar) ∉ userprofile) :
    ∀ entry ∈ bashVariables argv processId commandLine userprofile,
      IsKey entry.1 ∧ (0 : WChar) ∉ entry.2 := by
  have hname {k : WString} (hnul : (0 : WChar) ∉ k) (heq : (0x3D : WChar) ∉ k) : IsKey k :=
    ⟨hnul, heq⟩
  intro entry hentry
  rw [bashVariables, List.mem_append, List.mem_append] at hentry
  rcases hentry with (hargs | hfixed) | hhome
  · obtain ⟨i, hi, rfl⟩ := List.mem_mapIdx.mp hargs
    have hdigit {c : WChar} (hc : c.toNat < 0x30 ∨ 0x39 < c.toNat) :
        c ∉ wide (Nat.repr i) := fun hmem => by
      have hrange := digit_of_mem_repr hmem
      omega
    exact ⟨⟨hdigit (.inl (by decide)), hdigit (.inr (by decide))⟩,
      hargv _ (List.getElem_mem hi)⟩
  · simp only [List.mem_cons, List.not_mem_nil, or_false] at hfixed
    rcases hfixed with rfl | rfl | rfl
    · exact ⟨hname (k := wide "$") (by decide) (by decide), hid⟩
    · exact ⟨hname (k := wide "@") (by decide) (by decide), hline⟩
    · exact ⟨hname (k := wide "DOLLAR") (by decide) (by decide), by decide⟩
  · split_ifs at hhome
    · exact absurd hhome List.not_mem_nil
    · rw [List.mem_singleton.mp hhome]
      exact ⟨hname (k := wide "HOME") (by decide) (by decide), hprofile⟩

/-- A call whose texts have no null character, and whose key has no equals sign. -/
def Operation.Plain : Operation → Prop
  | .initializeEnv _ => True
  | .initializeCleanupEnv systemroot _ => (0 : WChar) ∉ systemroot
  | .addBashCompatible argv processId commandLine userprofile =>
      (∀ arg ∈ argv, (0 : WChar) ∉ arg) ∧ (0 : WChar) ∉ processId ∧ (0 : WChar) ∉ commandLine ∧
        (0 : WChar) ∉ userprofile
  | .setEnv key value _ => IsKey key ∧ (0 : WChar) ∉ value
  | .putEnv nv _ => (0 : WChar) ∉ nv
  | .eraseEnv _ => True
  | .appendEnv key value => IsKey key ∧ (0 : WChar) ∉ value
  | .pathPushFront paths => ∀ p ∈ paths, (0 : WChar) ∉ p
  | .pathAppend paths => ∀ p ∈ paths, (0 : WChar) ∉ p
  | .pathOrganize => True
  | .makeEnv => True

theorem Sound.appendEnv {sm : Simulator} (h : Sound sm) {key value : WString} (hkey : IsKey key)
    (hvalue : (0 : WChar) ∉ value) : Sound (sm.appendEnv key value) := by
  unfold Simulator.appendEnv
  split_ifs
  · refine h.withPathexts fun e he => ?_
    rcases List.mem_append.mp he with hold | hnew
    · exact h.pathexts e hold
    · rwa [List.mem_singleton.mp hnew]
  · refine h.setEnv hkey ?_ true
    cases hfind : sm.lookupEnv key with
    | none => exact hvalue
    | some old =>
        obtain ⟨entry, hentry, hold⟩ := Option.map_eq_some_iff.mp hfind
        have hmem := h.values entry (List.mem_of_find?_eq_some hentry)
        rw [Option.map_some, Option.getD_some, List.mem_append, List.mem_append, ← hold]
        rintro ((hnul | hnul) | hnul)
        · exact hmem hnul
        · exact absurd hnul (by decide)
        · exact hvalue hnul

theorem Sound.eraseEnv {sm : Simulator} (h : Sound sm) (key : WString) :
    Sound (sm.eraseEnv key) := by
  have hsublist := List.filter_sublist (l := sm.envmap)
    (p := fun entry => !equalsIgnoreCase entry.1 key)
  exact { h with
    apart := h.apart.sublist hsublist
    keys := fun entry hentry => h.keys entry (hsublist.mem hentry)
    values := fun entry hentry => h.values entry (hsublist.mem hentry) }

section Runs

variable {order : List (WString × WString) → List (WString × WString)}

theorem Sound.perform {c : CachedSimulator} (h : Sound c.sm) {op : Operation} (hop : op.Plain) :
    Sound (c.perform order op).sm := by
  have hset {key value : WString} (hkey : IsKey key) (hvalue : (0 : WChar) ∉ value)
      (force : Bool) : Sound (c.setEnv key value force).sm := by
    unfold CachedSimulator.setEnv
    split_ifs
    · exact h.setEnv hkey hvalue force
    · exact h
  cases op with
  | initializeEnv block => exact h.initializeEnv block
  | initializeCleanupEnv systemroot block => exact h.initializeCleanupEnv hop block
  | addBashCompatible argv processId commandLine userprofile =>
      obtain ⟨hargv, hid, hline, hprofile⟩ := hop
      exact h.emplaceAll (isKey_bashVariables hargv hid hline hprofile)
  | setEnv key value force => exact hset hop.1 hop.2 force
  | putEnv nv force => exact hset (isKey_splitEnv hop).1 (isKey_splitEnv hop).2 force
  | eraseEnv key =>
      rw [CachedSimulator.perform]
      split_ifs
      · exact h.eraseEnv key
      · exact h
  | appendEnv key value =>
      rw [CachedSimulator.perform]
      split_ifs
      · exact h
      · exact h.appendEnv hop.1 hop.2
  | pathPushFront paths =>
      exact h.withPaths fun p hp => (List.mem_append.mp hp).elim (hop p) (h.paths p)
  | pathAppend paths =>
      exact h.withPaths fun p hp => (List.mem_append.mp hp).elim (h.paths p) (hop p)
  | pathOrganize => exact h.withPaths (nul_not_mem_organizePaths h.paths)
  | makeEnv =>
      rw [CachedSimulator.perform, CachedSimulator.makeEnv]
      split_ifs
      · exact h
      · exact h

/-- The block that is kept, if there is one, is the block of the simulator. -/
def Current (order : List (WString × WString) → List (WString × WString))
    (c : CachedSimulator) : Prop :=
  c.cachedEnv = [] ∨ c.cachedEnv = makeInternalEnv order c.sm

/-- An initialisation, which does not drop the block, comes only while there is none. -/
def Operation.InTime (c : CachedSimulator) : Operation → Prop
  | .initializeEnv _ => c.cachedEnv = []
  | .initializeCleanupEnv _ _ => c.cachedEnv = []
  | .addBashCompatible _ _ _ _ => c.cachedEnv = []
  | _ => True

theorem Current.perform {c : CachedSimulator} (h : Current order c) {op : Operation}
    (hop : op.InTime c) : Current order (c.perform order op) := by
  have hset (key value : WString) (force : Bool) :
      Current order (c.setEnv key value force) := by
    unfold CachedSimulator.setEnv
    split_ifs
    · exact .inl rfl
    · exact h
  cases op with
  | initializeEnv block => exact .inl hop
  | initializeCleanupEnv systemroot block => exact .inl hop
  | addBashCompatible argv processId commandLine userprofile => exact .inl hop
  | setEnv key value force => exact hset key value force
  | putEnv nv force => exact hset _ _ force
  | eraseEnv key =>
      rw [CachedSimulator.perform]
      split_ifs
      · exact .inl rfl
      · exact h
  | appendEnv key value =>
      rw [CachedSimulator.perform]
      split_ifs
      · exact h
      · exact .inl rfl
  | pathPushFront paths => exact .inl rfl
  | pathAppend paths => exact .inl rfl
  | pathOrganize => exact .inl rfl
  | makeEnv =>
      rw [CachedSimulator.perform, CachedSimulator.makeEnv]
      split_ifs
      · exact .inr rfl
      · exact h

end Runs

/-! ## Reading the block back -/

theorem eq_mem_entryText (entry : WString × WString) : (0x3D : WChar) ∈ entryText entry :=
  List.mem_append_right _ List.mem_cons_self

theorem joinEnv_nul {values : List WString} (h : ∀ v ∈ values, (0 : WChar) ∉ v) :
    (0 : WChar) ∉ joinEnv values := by
  intro hmem
  rcases mem_joinEnv hmem with hsemicolon | ⟨v, hv, hc⟩
  · exact absurd hsemicolon (by decide)
  · exact h v hv hc

section Child

variable {order : List (WString × WString) → List (WString × WString)} {sm : Simulator}

theorem Sound.blockTexts (h : Sound sm) (horder : ∀ entries, (order entries).Perm entries) :
    blockEntries (makeInternalEnv order sm) = blockTexts sm (order sm.envmap) := by
  apply blockEntries_flatMap
  have hfront {name : WString} (hne : name ≠ []) (hname : (0 : WChar) ∉ name)
      {values : List WString} (hvalues : ∀ v ∈ values, (0 : WChar) ∉ v) :
      name ++ joinEnv values ≠ [] ∧ (0 : WChar) ∉ name ++ joinEnv values := by
    refine ⟨fun h => hne (List.append_eq_nil_iff.mp h).1, fun hmem => ?_⟩
    exact (List.mem_append.mp hmem).elim hname (joinEnv_nul hvalues)
  intro t ht
  rcases List.mem_cons.mp ht with rfl | ht
  · exact hfront (by decide) (by decide) h.paths
  rcases List.mem_cons.mp ht with rfl | ht
  · exact hfront (by decide) (by decide) h.pathexts
  obtain ⟨entry, hentry, rfl⟩ := List.mem_map.mp ht
  have hmem := (horder sm.envmap).mem_iff.mp hentry
  refine ⟨fun h => ?_, fun hnul => ?_⟩
  · exact absurd (h ▸ eq_mem_entryText entry) List.not_mem_nil
  · rcases List.mem_append.mp hnul with hkey | hvalue
    · exact (h.keys entry hmem).1 hkey
    · rcases List.mem_cons.mp hvalue with hzero | hvalue
      · exact absurd hzero (by decide)
      · exact h.values entry hmem hvalue

end Child

/-! ## Runs -/

end Baulk.Env
