import Baulk.Mutex.FsMutex

/-!
# The lock file and `baulk-migrate`

The commands of `baulk` hold the mutex while they change the installation.
`baulk-migrate` asks for it in `IsLocked`, whose local variable gives it back when
the function returns; the folders are moved afterwards.
-/

namespace Baulk.Mutex

open Support

/-- What a process is there for. -/
inductive Role where
  | command
  | migrate
  deriving DecidableEq

/-- How far `Migrator::Execute` is. -/
inductive Task where
  | start
  /-- `MakeFsMutex`, called by `IsLocked`. -/
  | locking
  /-- `MakeFsMutex` has returned a mutex, so `IsLocked` is to return false. -/
  | checked
  /-- So many folders are moved. -/
  | moving (folders : Nat)
  | ended
  deriving DecidableEq

/-- After the check, and before the last folder is moved. -/
def Task.Active (t : Task) : Prop :=
  t = .checked ∨ ∃ n, n < 8 ∧ t = .moving n

/-- What a step of the process means for it: the object is in a phase now. -/
def Task.follow (t : Task) (after : Phase) : Task :=
  match t, after with
  | .start, _ => .locking
  | .locking, .holding => .checked
  | .locking, .outside => .ended
  | .checked, .outside => .moving 0
  | t, _ => t

/-- The lock file, and the migrations of all processes. -/
structure Site (ι π : Type) where
  system : System ι
  task : π → Task

inductive Event (ι π : Type) where
  | mutex (a : Action ι π)
  /-- A command changes the installation. -/
  | change (i : ι)
  /-- `moveFolder`, for the next folder. -/
  | moveFolder (p : π) (fails : Bool)
  /-- `InitializePathFs`. -/
  | finish (p : π)

/-- The object of a step. -/
def Action.actor {ι π : Type} : Action ι π → Option ι
  | .openRead i _ => some i
  | .read i _ => some i
  | .query i _ => some i
  | .create i _ => some i
  | .write i _ => some i
  | .close i => some i
  | .delete i _ => some i
  | .move _ j => some j
  | .die _ => none
  | .rundown _ => none

section Steps

variable {ι π : Type} [DecidableEq ι] [DecidableEq π]

def Site.enter (s : Site ι π) (p : π) (t : Task) : Site ι π :=
  { s with task := Function.update s.task p t }

/-- The task of a process after a step of its own. -/
def Site.follow (role : π → Role) (owner : ι → π) (s : Site ι π)
    (a : Action ι π) : Site ι π :=
  match a with
  | .die p => if role p = .migrate then s.enter p .ended else s
  | a =>
      match a.actor with
      | some i =>
          if role (owner i) = .migrate then
            s.enter (owner i) ((s.task (owner i)).follow (s.system.phase i))
          else s
      | none => s

/-- `Execute` calls `MakeFsMutex` once. -/
def Site.mayCall (role : π → Role) (owner : ι → π) (s : Site ι π) :
    Action ι π → Bool
  | .openRead i _ => role (owner i) = .command || s.task (owner i) = .start
  | _ => true

def siteStep (role : π → Role) (owner : ι → π) (pid : π → Nat) (s : Site ι π) :
    Event ι π → Option (Site ι π)
  | .mutex a =>
      if s.mayCall role owner a then
        match step owner pid s.system a with
        | some system => some ({ s with system }.follow role owner a)
        | none => none
      else none
  | .change i =>
      if role (owner i) = .command ∧ s.system.phase i = .holding then some s
      else none
  | .moveFolder p fails =>
      match s.task p with
      | .moving n =>
          if role p = .migrate ∧ n < 8 then
            some (s.enter p (if fails then .ended else .moving (n + 1)))
          else none
      | _ => none
  | .finish p => if s.task p = .moving 8 then some (s.enter p .ended) else none

/-- No process has started. -/
def siteInitial (content : Option Bytes) : Site ι π where
  system := initial content
  task _ := .start

end Steps

/-! ## Whose turn it is -/

/-- A command changes nothing during a migration, and no folder is moved while a
command holds the mutex. -/
def Apart {ι π : Type} (role : π → Role) (owner : ι → π) (s : Site ι π) :
    Event ι π → Prop
  | .change _ => ∀ p, role p = .migrate → ¬ (s.task p).Active
  | .moveFolder _ _ => ∀ p, role p = .command → ¬ s.system.Holds owner p
  | _ => True

/-- No command creates the lock file during a migration. -/
def NoneCreates {ι π : Type} (role : π → Role) (owner : ι → π) (s : Site ι π) :
    Event ι π → Prop
  | .mutex (.create i false) =>
      role (owner i) = .command → s.system.handles.Admits mutexMode →
        ∀ p, role p = .migrate → ¬ (s.task p).Active
  | _ => True

section Turns

theorem Task.active_of_follow {t : Task} {after : Phase}
    (h : (t.follow after).Active) : t.Active ∨ after = .holding := by
  cases t with
  | start => simp [Task.follow, Task.Active] at h
  | locking => cases after <;> simp_all [Task.follow, Task.Active]
  | checked => exact .inl (.inl rfl)
  | moving n => exact .inl h
  | ended => simp [Task.follow, Task.Active] at h

variable {ι π : Type} {role : π → Role} {owner : ι → π} {pid : π → Nat}

/-- While a process migrates, no command has the file open. -/
structure Turn (role : π → Role) (owner : ι → π) (s : Site ι π) : Prop where
  backed : Backed s.system
  alone : ∀ p, role p = .migrate → (s.task p).Active →
    ∀ i, role (owner i) = .command → ¬ (s.system.phase i).Open

/-- Tasks become active only by what the condition of a step leaves. -/
theorem Turn.of_task {s s' : Site ι π} (h : Turn role owner s)
    (hsystem : s'.system = s.system)
    (hactive : ∀ p, (s'.task p).Active → (s.task p).Active) :
    Turn role owner s' := by
  refine ⟨hsystem ▸ h.backed, ?_⟩
  intro p hp hp'
  rw [hsystem]
  exact h.alone p hp (hactive p hp')

variable [DecidableEq π]

theorem active_enter {s : Site ι π} {p q : π} {t : Task}
    (h : ((s.enter q t).task p).Active) :
    (s.task p).Active ∨ p = q ∧ t.Active := by
  change (Function.update s.task q t p).Active at h
  by_cases hpq : p = q
  · rw [hpq, Function.update_self] at h
    exact .inr ⟨hpq, h⟩
  · rw [Function.update_of_ne hpq] at h
    exact .inl h

theorem system_follow (s : Site ι π) (a : Action ι π) :
    (s.follow role owner a).system = s.system := by
  unfold Site.follow
  split
  · split
    · rfl
    · rfl
  · split
    · split
      · rfl
      · rfl
    · rfl

/-- A task becomes active only if an object of the process is held. -/
theorem Site.active_of_follow {s : Site ι π} {a : Action ι π} {p : π}
    (h : ((s.follow role owner a).task p).Active) :
    (s.task p).Active ∨ ∃ i, owner i = p ∧ s.system.phase i = .holding := by
  unfold Site.follow at h
  split at h
  · split at h
    · rcases active_enter h with hactive | ⟨-, hactive⟩
      · exact .inl hactive
      · simp [Task.Active] at hactive
    · exact .inl h
  · split at h
    · rename_i i _
      split at h
      · rcases active_enter h with hactive | ⟨hp, hactive⟩
        · exact .inl hactive
        · rcases Task.active_of_follow hactive with hbefore | hholding
          · rw [hp]
            exact .inl hbefore
          · exact .inr ⟨i, hp.symm, hholding⟩
      · exact .inl h
    · exact .inl h

variable [DecidableEq ι]

theorem Turn.mutex {s : Site ι π} (h : Turn role owner s) {a : Action ι π}
    (hmeets : NoneCreates role owner s (.mutex a)) {system : System ι}
    (hstep : step owner pid s.system a = some system) :
    Turn role owner ({ s with system }.follow role owner a) := by
  have hbacked : Backed system := h.backed.step hstep
  constructor
  · rw [system_follow]
    exact hbacked
  intro p hp hactive j hj
  rw [system_follow]
  intro hopen
  rcases Site.active_of_follow hactive with hbefore | ⟨i, rfl, hholding⟩
  · -- the migration was under way
    rcases open_before hstep hopen with ⟨k, hk, hkopen⟩ | ⟨rfl, hadmits⟩
    · exact h.alone p hp hbefore k (hk ▸ hj) hkopen
    · exact hmeets hj hadmits p hp hbefore
  · -- it starts now, so it has the file open itself
    have heq : i = j := Handles.eq_of_exclusive (by decide)
      (hbacked i (.inr (.inr hholding))) (hbacked j hopen)
    rw [heq, hj] at hp
    cases hp

theorem Turn.step {s s' : Site ι π} (h : Turn role owner s) {e : Event ι π}
    (hmeets : NoneCreates role owner s e)
    (hstep : siteStep role owner pid s e = some s') : Turn role owner s' := by
  cases e with
  | mutex a =>
      simp only [siteStep] at hstep
      split at hstep
      · split at hstep
        · rename_i system hsystem
          cases hstep
          exact h.mutex hmeets hsystem
        · cases hstep
      · cases hstep
  | change i =>
      simp only [siteStep] at hstep
      split at hstep
      · cases hstep
        exact h
      · cases hstep
  | moveFolder p fails =>
      simp only [siteStep] at hstep
      split at hstep
      · rename_i n htask
        split at hstep
        · rename_i hguard
          cases hstep
          refine h.of_task rfl fun q hq => ?_
          rcases active_enter hq with hq | ⟨rfl, -⟩
          · exact hq
          · exact .inr ⟨n, hguard.2, htask⟩
        · cases hstep
      · cases hstep
  | finish p =>
      simp only [siteStep] at hstep
      split at hstep
      · cases hstep
        refine h.of_task rfl fun q hq => ?_
        rcases active_enter hq with hq | ⟨-, hended⟩
        · exact hq
        · simp [Task.Active] at hended
      · cases hstep

/-- If no command creates the lock file during a migration, then none changes
anything during it, and nothing is moved while one holds the mutex. -/
theorem migration_apart {content : Option Bytes} {s : Site ι π}
    (h : Reaches (siteStep role owner pid) (NoneCreates role owner)
      (siteInitial content) s) {e : Event ι π} {s' : Site ι π}
    (hstep : siteStep role owner pid s e = some s') : Apart role owner s e := by
  have hturn : Turn role owner s := by
    refine h.invariant ⟨?_, ?_⟩ fun s e s' hs hmeets hstep => hs.step hmeets hstep
    · intro i hi
      exact absurd hi not_open_outside
    · intro p hp hactive
      simp [siteInitial, Task.Active] at hactive
  cases e with
  | mutex a => trivial
  | change i =>
      simp only [siteStep] at hstep
      split at hstep
      · rename_i hguard
        intro p hp hactive
        exact hturn.alone p hp hactive i hguard.1 (.inr (.inr hguard.2))
      · cases hstep
  | moveFolder p fails =>
      simp only [siteStep] at hstep
      split at hstep
      · rename_i n htask
        split at hstep
        · rename_i hguard
          rintro q hq ⟨i, rfl, hi⟩
          exact hturn.alone p hguard.1 (.inr ⟨n, hguard.2, htask⟩) i hq
            (.inr (.inr hi))
        · cases hstep
      · cases hstep
  | finish p => trivial

end Turns

/-! ### One migration and one command -/

/-- `true` migrates. -/
def oneMigrates : Bool → Role
  | true => .migrate
  | false => .command

/-- All of `MakeFsMutex`, without a lock file. -/
def acquires (i : Bool) : List (Event Bool Bool) :=
  [.mutex (.openRead i false), .mutex (.query i fun _ => none),
    .mutex (.create i false), .mutex (.write i false)]

/-- All of `IsLocked`. -/
def checks : List (Event Bool Bool) :=
  acquires true ++ [.mutex (.close true), .mutex (.delete true false)]

/-- The first folder is moved while no command holds the mutex. -/
theorem migration_apart_alone :
    ∃ s s' : Site Bool Bool,
      Reaches (siteStep oneMigrates id fun _ => 7) (NoneCreates oneMigrates id)
        (siteInitial none) s ∧
      siteStep oneMigrates id (fun _ => 7) s (.moveFolder true false) = some s' ∧
      Apart oneMigrates id s (.moveFolder true false) := by
  have hreaches := Reaches.start.of_runSteps
    (show ∀ s, ∀ e ∈ checks, NoneCreates oneMigrates id s e by
      simp [checks, acquires, NoneCreates, oneMigrates])
    (show runSteps (siteStep oneMigrates id fun _ => 7) (siteInitial none) checks =
      some _ from rfl)
  exact ⟨_, _, hreaches, rfl, migration_apart hreaches rfl⟩

/-- A command gets the mutex before the first folder is moved.  Then it changes
the installation, or a folder is moved while it holds the mutex. -/
theorem migration_meets_command :
    ∃ s : Site Bool Bool,
      Reaches (siteStep oneMigrates id fun _ => 7) Anything (siteInitial none) s ∧
      (siteStep oneMigrates id (fun _ => 7) s (.change false) ≠ none ∧
        ¬ Apart oneMigrates id s (.change false)) ∧
      siteStep oneMigrates id (fun _ => 7) s (.moveFolder true false) ≠ none ∧
        ¬ Apart oneMigrates id s (.moveFolder true false) := by
  have hreaches := Reaches.start.of_runSteps (fun _ _ _ => trivial)
    (show runSteps (siteStep oneMigrates id fun _ => 7) (siteInitial none)
      (checks ++ acquires false) = some _ from rfl)
  refine ⟨_, hreaches, ⟨Option.some_ne_none _, ?_⟩, Option.some_ne_none _, ?_⟩
  · intro h
    exact h true rfl (.inr ⟨0, by decide, rfl⟩)
  · intro h
    exact h false rfl ⟨false, rfl, rfl⟩

end Baulk.Mutex
