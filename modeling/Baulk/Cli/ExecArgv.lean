import Baulk.Core.ErrorCode
import Baulk.Env.Simulator
import Baulk.Support.Cut

/-!
# The command of baulk-exec

The arguments of `baulk-exec` may start with assignments `KEY=VALUE` for the environment of
the command behind them.  `ParseArgv` checks that there are arguments before it takes the
assignments off, and `Exec` reads the first of those that are left.
-/

namespace Baulk.Cli

open Env (Simulator)
open Support (cut_cases takeWhile_ne_append_cons dropWhile_ne_append_cons)

/-- What `Executor::ParseArgv` gets from its environment. -/
structure ExecHost where
  /-- The environment to start with, from `InitializeEnv` or `InitializeCleanupEnv`. -/
  simulator : Simulator
  /-- How `InitializeFastPathFs` fails. -/
  fastPathFs : Option ErrorCode
  /-- What comes after the assignments: Git, Visual Studio and the packages. -/
  prepare : Simulator → Except ErrorCode Simulator

/-- `Executor`, as far as the arguments are concerned. -/
structure Executor where
  simulator : Simulator
  argv : List WString

/-- How `ParseArgv` ends. -/
inductive ExecParse where
  | exited
  | returned (ok : Bool) (executor : Executor)

/-- The loop over the arguments. -/
def assignments : List WString → Simulator → Executor
  | [], sm => ⟨sm, []⟩
  | arg :: rest, sm =>
      if 0x3D ∈ arg then
        assignments rest
          (sm.setEnv (arg.takeWhile (· ≠ 0x3D)) ((arg.dropWhile (· ≠ 0x3D)).drop 1))
      else ⟨sm, arg :: rest⟩

/-- `ParseArgv` after the options were read; `args` are the other arguments. -/
def Executor.parseArgv (host : ExecHost) (args : List WString) : ExecParse :=
  if args.isEmpty then .exited
  else
    match host.fastPathFs with
    | some _ => .returned false ⟨host.simulator, []⟩
    | none =>
        let executor := assignments args host.simulator
        match host.prepare executor.simulator with
        | .error _ => .returned false executor
        | .ok sm => .returned true { executor with simulator := sm }

/-- The first step of `Exec`, which reads `argv[0]`. -/
def Executor.arg0 (executor : Executor) : Option WString :=
  executor.argv[0]?

/-! ## What is taken off -/

def assignmentText (nv : WString × WString) : WString :=
  nv.1 ++ 0x3D :: nv.2

/-- The longest run of assignments in front was applied in order, each of them split at its
first `=`, and the rest is kept as it is. -/
def Applied (args : List WString) (before : Simulator) (executor : Executor) : Prop :=
  ∃ nvs : List (WString × WString), args = nvs.map assignmentText ++ executor.argv ∧
    (∀ nv ∈ nvs, 0x3D ∉ nv.1) ∧ (∀ a, executor.argv.head? = some a → 0x3D ∉ a) ∧
    executor.simulator = nvs.foldl (fun sm nv => sm.setEnv nv.1 nv.2) before

theorem assignments_applied (args : List WString) (sm : Simulator) :
    Applied args sm (assignments args sm) := by
  induction args generalizing sm with
  | nil => exact ⟨[], rfl, nofun, nofun, rfl⟩
  | cons arg rest ih =>
      unfold assignments
      rcases cut_cases arg (0x3D : WChar) with hnot | ⟨key, value, rfl, hkey⟩
      · rw [if_neg hnot]
        refine ⟨[], rfl, nofun, ?_, rfl⟩
        intro a ha
        cases ha
        exact hnot
      · have hmem : (0x3D : WChar) ∈ key ++ 0x3D :: value :=
          List.mem_append_right _ List.mem_cons_self
        rw [if_pos hmem, takeWhile_ne_append_cons hkey, dropWhile_ne_append_cons hkey,
          List.drop_one, List.tail_cons]
        obtain ⟨nvs, hargs, hkeys, hhead, hsm⟩ := ih (sm.setEnv key value)
        refine ⟨(key, value) :: nvs, ?_, ?_, hhead, hsm⟩
        · rw [List.map_cons, List.cons_append, ← hargs, assignmentText]
        · intro nv hnv
          rcases List.mem_cons.mp hnv with rfl | hnv
          · exact hkey
          · exact hkeys nv hnv

/-- Something is left exactly if not every argument is an assignment. -/
theorem argv_assignments_ne_nil_iff (args : List WString) (sm : Simulator) :
    (assignments args sm).argv ≠ [] ↔ ∃ a ∈ args, 0x3D ∉ a := by
  induction args generalizing sm with
  | nil => exact iff_of_false (fun h => h rfl) nofun
  | cons arg rest ih =>
      unfold assignments
      by_cases h : 0x3D ∈ arg
      · rw [if_pos h, ih]
        constructor
        · rintro ⟨a, ha, hne⟩
          exact ⟨a, List.mem_cons_of_mem _ ha, hne⟩
        · rintro ⟨a, ha, hne⟩
          rcases List.mem_cons.mp ha with rfl | ha
          · exact absurd h hne
          · exact ⟨a, ha, hne⟩
      · rw [if_neg h]
        exact iff_of_true (List.cons_ne_nil _ _) ⟨arg, List.mem_cons_self, h⟩

/-- What is expected of `ParseArgv` for some arguments, whatever the host does: the
assignments are applied to the environment that is initialised then, the rest is kept, and
`Exec` finds its command. -/
def ParsesCommand (args : List WString) : Prop :=
  ∀ (host : ExecHost) (executor : Executor),
    Executor.parseArgv host args = .returned true executor →
      (∃ sm, Applied args host.simulator ⟨sm, executor.argv⟩ ∧
        host.prepare sm = .ok executor.simulator) ∧
      executor.arg0.isSome

/-- `Exec` finds its command exactly if there are no arguments or one of them is no
assignment. -/
theorem parsesCommand_iff (args : List WString) :
    ParsesCommand args ↔ args = [] ∨ ∃ a ∈ args, 0x3D ∉ a := by
  constructor
  · intro h
    by_cases hempty : args = []
    · exact .inl hempty
    · right
      have hparse : Executor.parseArgv ⟨{}, none, .ok⟩ args =
          .returned true (assignments args {}) := by
        unfold Executor.parseArgv
        rw [if_neg (by rwa [List.isEmpty_iff])]
      have hsome := (h _ _ hparse).2
      rw [← argv_assignments_ne_nil_iff args {}]
      intro hnil
      rw [Executor.arg0, hnil] at hsome
      cases hsome
  · intro h host executor hparse
    unfold Executor.parseArgv at hparse
    split at hparse
    · cases hparse
    next hne =>
    split at hparse
    · cases hparse
    dsimp only at hparse
    split at hparse
    · cases hparse
    next sm hinit =>
    cases hparse
    refine ⟨⟨_, assignments_applied args host.simulator, hinit⟩, ?_⟩
    rcases h with rfl | hrest
    · exact absurd rfl hne
    · obtain ⟨a, rest, hargv⟩ :=
        List.exists_cons_of_ne_nil ((argv_assignments_ne_nil_iff args host.simulator).mpr hrest)
      rw [Executor.arg0, hargv]
      rfl

/-- With assignments only there is no command. -/
theorem not_parsesCommand_assignment : ¬ ParsesCommand [wide "A=1"] := by
  intro h
  have hsome := (h ⟨{}, none, .ok⟩ ⟨{ envmap := [(wide "A", wide "1")] }, []⟩ rfl).2
  cases hsome

end Baulk.Cli
