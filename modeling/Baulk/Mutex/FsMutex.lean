import Baulk.Core.Codecvt
import Baulk.Core.Numbers
import Baulk.Support.Sharing
import Baulk.Support.Transitions
import Mathlib.Logic.Function.Basic

/-!
# The lock file

`MakeFsMutex` looks at the process that a lock file names, and then creates the
file anew; an `FsMutex` keeps it open.  `Free` closes it and then deletes it.
Processes do this in any order, a step of one between two steps of another, and
may die at any point.  Nothing but the share mode keeps them apart.
-/

namespace Baulk.Mutex

open Support

/-! ## The pid -/

/-- `bela::SimpleAtoi`, for `DWORD`. -/
def simpleAtoi (s : WString) : Option Nat :=
  let r := Numbers.simpleAtoiU32 s
  if r.2 then some r.1.toNat else none

/-- Units of two bytes, the lower byte first. -/
def unitsLE : Bytes → WString
  | low :: high :: rest => (high.toUInt16 <<< 8 ||| low.toUInt16) :: unitsLE rest
  | _ => []

/-- Units of two bytes, the higher byte first. -/
def unitsBE : Bytes → WString
  | high :: low :: rest => (high.toUInt16 <<< 8 ||| low.toUInt16) :: unitsBE rest
  | _ => []

/-- `bela::io::ReadFile`, of what a file contains. -/
def decodeText (content : Bytes) : WString :=
  if [0xEF, 0xBB, 0xBF].isPrefixOf content then encodeUtf16 (content.drop 3)
  else if [0xFF, 0xFE].isPrefixOf content then unitsLE (content.drop 2)
  else if [0xFE, 0xFF].isPrefixOf content then unitsBE (content.drop 2)
  else encodeUtf16 content

/-- `bela::io::ReadLine`, at most 64 KiB. -/
def readLine (content : Bytes) : WString :=
  (decodeText (content.take (64 * 1024))).takeWhile
    fun c => !(c == 0x0D || c == 0x0A)

/-- `process_is_running`.  The exit code is that of the process, if
`OpenProcess` and `GetExitCodeProcess` succeed. -/
def processIsRunning (exitCode : Nat → Option Nat) (pid : Nat) : Bool :=
  exitCode pid == some 259

/-- The first check of `MakeFsMutex`. -/
def isRunning (line : Option WString) (exitCode : Nat → Option Nat) : Bool :=
  (line.bind simpleAtoi).any (processIsRunning exitCode)

/-- What `MakeFsMutex` writes. -/
def pidText (pid : Nat) : Bytes :=
  narrow (Nat.repr pid)

example : simpleAtoi (readLine (pidText 4711 ++ narrow "\r\n")) = some 4711 ∧
    simpleAtoi (wide "4294967296") = none := by
  decide

/-! ## The steps -/

/-- `CreateFileW` in `MakeFsMutex`. -/
def mutexMode : Mode where
  access := { read := true, write := true }
  share := { read := true }

/-- `bela::io::NewFile`. -/
def readerMode : Mode where
  access := { read := true }
  share := { read := true, write := true }

/-- `DeleteFileW`. -/
def deleteMode : Mode where
  access := { delete := true }
  share := { read := true, write := true, delete := true }

/-- Where one `FsMutex` object, or the call that is to make it, stands. -/
inductive Phase where
  /-- The object is empty, and there is no call. -/
  | outside
  /-- `ReadLine` has the file open. -/
  | reading
  /-- `ReadLine` has returned. -/
  | answered (line : Option WString)
  /-- `CreateFileW` comes next. -/
  | passed
  /-- The file is open; `WriteFile` comes next. -/
  | created
  /-- `WriteFile` failed; `CloseHandle` comes next. -/
  | failed
  | holding
  /-- The handle is closed; `DeleteFileW` comes next. -/
  | closed
  | dead
  deriving DecidableEq

/-- A phase in which the handle of `MakeFsMutex` is open. -/
def Phase.Open (p : Phase) : Prop :=
  p = .created ∨ p = .failed ∨ p = .holding

instance (p : Phase) : Decidable p.Open :=
  inferInstanceAs (Decidable (_ ∨ _ ∨ _))

/-- The objects `ι` of all processes, and the lock file that they share. -/
structure System (ι : Type) where
  phase : ι → Phase
  handles : Handles ι
  content : Option Bytes

/-- The objects are empty, and a file may be left from before. -/
def initial {ι : Type} (content : Option Bytes) : System ι where
  phase _ := .outside
  handles := .empty
  content

/-- One step of one process.  `fails` is for any reason but the share modes. -/
inductive Action (ι π : Type) where
  /-- `NewFile`. -/
  | openRead (i : ι) (fails : Bool)
  /-- The rest of `ReadLine`. -/
  | read (i : ι) (fails : Bool)
  /-- `SimpleAtoi` and `process_is_running`. -/
  | query (i : ι) (exitCode : Nat → Option Nat)
  /-- `CreateFileW`, with `CREATE_ALWAYS`. -/
  | create (i : ι) (fails : Bool)
  /-- `WriteFile`. -/
  | write (i : ι) (fails : Bool)
  /-- `CloseHandle`. -/
  | close (i : ι)
  /-- `DeleteFileW`. -/
  | delete (i : ι) (fails : Bool)
  /-- `MoveFrom`, to an object that is empty. -/
  | move (i j : ι)
  | die (p : π)
  /-- The handles of a process that died are closed. -/
  | rundown (p : π)

section Steps

variable {ι π : Type} [DecidableEq ι] [DecidableEq π]

def System.enter (s : System ι) (i : ι) (p : Phase) : System ι :=
  { s with phase := Function.update s.phase i p }

/-- Open the file, if the open handles allow it. -/
def System.open (s : System ι) (i : ι) (m : Mode) (content : Option Bytes)
    (fails : Bool) : Option (System ι) :=
  if h : fails = false ∧ s.handles.Admits m then
    some { s with handles := s.handles.add i m h.2, content }
  else none

def System.close (s : System ι) (i : ι) : System ι :=
  { s with handles := s.handles.close fun j => j = i }

/-- `DeleteFileW`. -/
def System.delete (s : System ι) (fails : Bool) : System ι :=
  if fails = false ∧ s.handles.Admits deleteMode then { s with content := none }
  else s

/-- One step, if the process is where it can take it. -/
def step (owner : ι → π) (pid : π → Nat) (s : System ι) :
    Action ι π → Option (System ι)
  | .openRead i fails =>
      if s.phase i = .outside then
        match s.open i readerMode s.content (fails || s.content.isNone) with
        | some s' => some (s'.enter i .reading)
        | none => some (s.enter i (.answered none))
      else none
  | .read i fails =>
      if s.phase i = .reading then
        let line := if fails then none else s.content.map readLine
        some ((s.close i).enter i (.answered line))
      else none
  | .query i exitCode =>
      match s.phase i with
      | .answered line =>
          some (s.enter i (if isRunning line exitCode then .outside else .passed))
      | _ => none
  | .create i fails =>
      if s.phase i = .passed then
        match s.open i mutexMode (some []) fails with
        | some s' => some (s'.enter i .created)
        | none => some (s.enter i .outside)
      else none
  | .write i fails =>
      if s.phase i = .created then
        if fails then some (s.enter i .failed)
        else
          let s := { s with content := some (pidText (pid (owner i))) }
          some (s.enter i .holding)
      else none
  | .close i =>
      if s.phase i = .failed ∨ s.phase i = .holding then
        some ((s.close i).enter i .closed)
      else none
  | .delete i fails =>
      if s.phase i = .closed then some ((s.delete fails).enter i .outside)
      else none
  | .move i j =>
      if owner i = owner j ∧ s.phase i = .holding ∧ s.phase j = .outside then
        let s := { s with handles := s.handles.pass fun k => if k = i then j else k }
        some ((s.enter i .outside).enter j .holding)
      else none
  | .die p =>
      some { s with phase := fun i => if owner i = p then .dead else s.phase i }
  | .rundown p =>
      some { s with handles :=
        s.handles.close fun i => owner i = p ∧ s.phase i = .dead }

/-- What one step can do. -/
inductive Took (owner : ι → π) (pid : π → Nat) (s : System ι) :
    Action ι π → System ι → Prop where
  | opened {i : ι} {fails : Bool} {s₁ : System ι}
      (hphase : s.phase i = .outside)
      (hopen : s.open i readerMode s.content (fails || s.content.isNone) = some s₁) :
      Took owner pid s (.openRead i fails) (s₁.enter i .reading)
  | unopened {i : ι} {fails : Bool} (hphase : s.phase i = .outside) :
      Took owner pid s (.openRead i fails) (s.enter i (.answered none))
  | read {i : ι} {fails : Bool} (hphase : s.phase i = .reading)
      (line : Option WString) :
      Took owner pid s (.read i fails) ((s.close i).enter i (.answered line))
  | refused {i : ι} {exitCode : Nat → Option Nat} {line : Option WString}
      (hphase : s.phase i = .answered line)
      (hrunning : isRunning line exitCode = true) :
      Took owner pid s (.query i exitCode) (s.enter i .outside)
  | passed {i : ι} {exitCode : Nat → Option Nat} {line : Option WString}
      (hphase : s.phase i = .answered line)
      (hrunning : isRunning line exitCode = false) :
      Took owner pid s (.query i exitCode) (s.enter i .passed)
  | created {i : ι} {fails : Bool} {s₁ : System ι} (hphase : s.phase i = .passed)
      (hopen : s.open i mutexMode (some []) fails = some s₁) :
      Took owner pid s (.create i fails) (s₁.enter i .created)
  | uncreated {i : ι} {fails : Bool} (hphase : s.phase i = .passed) :
      Took owner pid s (.create i fails) (s.enter i .outside)
  | written {i : ι} (hphase : s.phase i = .created) :
      Took owner pid s (.write i false)
        ({ s with content := some (pidText (pid (owner i))) }.enter i .holding)
  | unwritten {i : ι} (hphase : s.phase i = .created) :
      Took owner pid s (.write i true) (s.enter i .failed)
  | closed {i : ι} (hphase : s.phase i = .failed ∨ s.phase i = .holding) :
      Took owner pid s (.close i) ((s.close i).enter i .closed)
  | deleted {i : ι} {fails : Bool} (hphase : s.phase i = .closed) :
      Took owner pid s (.delete i fails) ((s.delete fails).enter i .outside)
  | moved {i j : ι} (howner : owner i = owner j) (hi : s.phase i = .holding)
      (hj : s.phase j = .outside) :
      Took owner pid s (.move i j)
        (({ s with handles := s.handles.pass fun k => if k = i then j else k
          }.enter i .outside).enter j .holding)
  | died {p : π} :
      Took owner pid s (.die p)
        { s with phase := fun i => if owner i = p then .dead else s.phase i }
  | rundown {p : π} :
      Took owner pid s (.rundown p)
        { s with handles :=
          s.handles.close fun i => owner i = p ∧ s.phase i = .dead }

theorem step_cases {owner : ι → π} {pid : π → Nat} {s s' : System ι}
    {a : Action ι π} (hstep : step owner pid s a = some s') :
    Took owner pid s a s' := by
  cases a with
  | openRead i fails =>
      simp only [step] at hstep
      split at hstep
      · rename_i hphase
        split at hstep
        · rename_i s₁ hopen
          cases hstep
          exact .opened hphase hopen
        · cases hstep
          exact .unopened hphase
      · cases hstep
  | read i fails =>
      simp only [step] at hstep
      split at hstep
      · rename_i hphase
        cases hstep
        exact .read hphase _
      · cases hstep
  | query i exitCode =>
      simp only [step] at hstep
      split at hstep
      · rename_i line hphase
        cases hstep
        cases hrunning : isRunning line exitCode with
        | true => exact .refused hphase hrunning
        | false => exact .passed hphase hrunning
      · cases hstep
  | create i fails =>
      simp only [step] at hstep
      split at hstep
      · rename_i hphase
        split at hstep
        · rename_i s₁ hopen
          cases hstep
          exact .created hphase hopen
        · cases hstep
          exact .uncreated hphase
      · cases hstep
  | write i fails =>
      simp only [step] at hstep
      split at hstep
      · rename_i hphase
        cases fails with
        | true =>
            cases hstep
            exact .unwritten hphase
        | false =>
            cases hstep
            exact .written hphase
      · cases hstep
  | close i =>
      simp only [step] at hstep
      split at hstep
      · rename_i hphase
        cases hstep
        exact .closed hphase
      · cases hstep
  | delete i fails =>
      simp only [step] at hstep
      split at hstep
      · rename_i hphase
        cases hstep
        exact .deleted hphase
      · cases hstep
  | move i j =>
      simp only [step] at hstep
      split at hstep
      · rename_i hmove
        cases hstep
        exact .moved hmove.1 hmove.2.1 hmove.2.2
      · cases hstep
  | die p =>
      cases hstep
      exact .died
  | rundown p =>
      cases hstep
      exact .rundown

end Steps

/-! ## Who has the file open -/

section Holders

theorem not_open_outside : ¬ Phase.outside.Open := by
  decide

theorem not_open_answered (line : Option WString) :
    ¬ (Phase.answered line).Open := by
  simp [Phase.Open]

variable {ι π : Type}

/-- Who is past `CreateFileW` has the handle. -/
def Backed (s : System ι) : Prop :=
  ∀ i, (s.phase i).Open → (i, mutexMode) ∈ s.handles.entries

/-- What opening the file does. -/
structure Opened (s : System ι) (i : ι) (m : Mode) (content : Option Bytes)
    (fails : Bool) (s' : System ι) : Prop where
  succeeds : fails = false
  admits : s.handles.Admits m
  entries : s'.handles.entries = (i, m) :: s.handles.entries
  phase : s'.phase = s.phase
  content_eq : s'.content = content

theorem opened_of_open {s s' : System ι} {i : ι} {m : Mode}
    {content : Option Bytes} {fails : Bool}
    (hopen : s.open i m content fails = some s') :
    Opened s i m content fails s' := by
  unfold System.open at hopen
  split at hopen
  · rename_i hadmits
    cases hopen
    exact ⟨hadmits.1, hadmits.2, rfl, rfl, rfl⟩
  · cases hopen

theorem Backed.open {s s' : System ι} (h : Backed s) {i : ι} {m : Mode}
    {content : Option Bytes} {fails : Bool} (ho : Opened s i m content fails s') :
    Backed s' ∧ (i, m) ∈ s'.handles.entries := by
  constructor
  · intro j hj
    rw [ho.phase] at hj
    rw [ho.entries]
    exact List.mem_cons_of_mem _ (h j hj)
  · rw [ho.entries]
    exact List.mem_cons_self

variable [DecidableEq ι]

/-- An object that is not the one of the step is where it was. -/
theorem open_enter {s : System ι} {i j : ι} {p : Phase}
    (h : ((s.enter i p).phase j).Open) :
    (s.phase j).Open ∧ j ≠ i ∨ j = i ∧ p.Open := by
  change (Function.update s.phase i p j).Open at h
  by_cases hji : j = i
  · rw [hji, Function.update_self] at h
    exact .inr ⟨hji, h⟩
  · rw [Function.update_of_ne hji] at h
    exact .inl ⟨h, hji⟩

theorem Backed.enter {s : System ι} (h : Backed s) (i : ι) {p : Phase}
    (hp : ¬ p.Open) : Backed (s.enter i p) := by
  intro j hj
  rcases open_enter hj with ⟨hj, -⟩ | ⟨-, hopen⟩
  · exact h j hj
  · exact absurd hopen hp

theorem Backed.enter_open {s : System ι} (h : Backed s) {i : ι} (p : Phase)
    (hi : (i, mutexMode) ∈ s.handles.entries) : Backed (s.enter i p) := by
  intro j hj
  rcases open_enter hj with ⟨hj, -⟩ | ⟨rfl, -⟩
  · exact h j hj
  · exact hi

theorem Backed.close_enter {s : System ι} (h : Backed s) (i : ι) {p : Phase}
    (hp : ¬ p.Open) : Backed ((s.close i).enter i p) := by
  intro j hj
  rcases open_enter hj with ⟨hj, hji⟩ | ⟨-, hopen⟩
  · exact Handles.mem_close.mpr ⟨h j hj, decide_eq_false hji⟩
  · exact absurd hopen hp

theorem Backed.move {s : System ι} (h : Backed s) {i : ι}
    (hi : s.phase i = .holding) (j : ι) :
    Backed (({ s with handles := s.handles.pass fun k => if k = i then j else k
      }.enter i .outside).enter j .holding) := by
  intro k hk
  change (Function.update (Function.update s.phase i .outside) j .holding k).Open
    at hk
  change (k, mutexMode) ∈ (s.handles.pass fun k => if k = i then j else k).entries
  by_cases hkj : k = j
  · have hmem := Handles.mem_pass (fun k => if k = i then j else k)
      (h i (hi ▸ .inr (.inr rfl)))
    rw [if_pos rfl] at hmem
    rwa [hkj]
  · rw [Function.update_of_ne hkj] at hk
    by_cases hki : k = i
    · rw [hki, Function.update_self] at hk
      exact absurd hk not_open_outside
    · rw [Function.update_of_ne hki] at hk
      have hmem := Handles.mem_pass (fun k => if k = i then j else k) (h k hk)
      rwa [if_neg hki] at hmem

variable [DecidableEq π] {owner : ι → π} {pid : π → Nat}

theorem Backed.step {s s' : System ι} {a : Action ι π} (h : Backed s)
    (hstep : step owner pid s a = some s') : Backed s' := by
  cases step_cases hstep with
  | opened hphase hopen => exact (h.open (opened_of_open hopen)).1.enter _ (by decide)
  | unopened hphase => exact h.enter _ (not_open_answered none)
  | read hphase line => exact h.close_enter _ (not_open_answered line)
  | refused hphase hrunning => exact h.enter _ not_open_outside
  | passed hphase hrunning => exact h.enter _ (by decide)
  | created hphase hopen =>
      obtain ⟨hbacked, hi⟩ := h.open (opened_of_open hopen)
      exact hbacked.enter_open .created hi
  | uncreated hphase => exact h.enter _ not_open_outside
  | @written i hphase =>
      exact Backed.enter_open h .holding (h i (hphase ▸ .inl rfl))
  | @unwritten i hphase => exact h.enter_open .failed (h i (hphase ▸ .inl rfl))
  | closed hphase => exact h.close_enter _ (by decide)
  | @deleted i fails hphase =>
      have hdelete : Backed (s.delete fails) := by
        unfold System.delete
        split
        · exact h
        · exact h
      exact hdelete.enter i not_open_outside
  | moved howner hi hj => exact h.move hi _
  | died =>
      intro i hi
      dsimp only at hi
      split at hi
      · exact absurd hi (by decide)
      · exact h i hi
  | rundown =>
      intro i hi
      refine Handles.mem_close.mpr ⟨h i hi, decide_eq_false ?_⟩
      rintro ⟨-, hdead⟩
      change (s.phase i).Open at hi
      rw [hdead] at hi
      exact absurd hi (by decide)

theorem Backed.of_reaches {content : Option Bytes} {s : System ι}
    (h : Reaches (Mutex.step owner pid) Anything (initial content) s) :
    Backed s := by
  refine h.invariant ?_ ?_
  · intro i hi
    exact absurd hi not_open_outside
  · intro s a s' hs _ hstep
    exact hs.step hstep

/-- An object has the file open because one of its process had, or because it
created the file. -/
theorem open_before {s s' : System ι} {a : Action ι π}
    (hstep : step owner pid s a = some s') {j : ι} (hj : (s'.phase j).Open) :
    (∃ k, owner k = owner j ∧ (s.phase k).Open) ∨
      a = .create j false ∧ s.handles.Admits mutexMode := by
  have hshut : ∀ {s₁ : System ι} {i p}, s₁.phase = s.phase → ¬ p.Open →
      ((s₁.enter i p).phase j).Open →
      ∃ k, owner k = owner j ∧ (s.phase k).Open := by
    intro s₁ i p hphase hp hopen
    rcases open_enter hopen with ⟨hopen, -⟩ | ⟨-, hopen⟩
    · exact ⟨j, rfl, hphase ▸ hopen⟩
    · exact absurd hopen hp
  have hkept : ∀ {s₁ : System ι} {i p}, s₁.phase = s.phase → (s.phase i).Open →
      ((s₁.enter i p).phase j).Open →
      ∃ k, owner k = owner j ∧ (s.phase k).Open := by
    intro s₁ i p hphase hi hopen
    rcases open_enter hopen with ⟨hopen, -⟩ | ⟨rfl, -⟩
    · exact ⟨j, rfl, hphase ▸ hopen⟩
    · exact ⟨j, rfl, hi⟩
  cases step_cases hstep with
  | opened hphase hopen => exact .inl (hshut (opened_of_open hopen).phase (by decide) hj)
  | unopened hphase => exact .inl (hshut rfl (not_open_answered none) hj)
  | read hphase line => exact .inl (hshut rfl (not_open_answered line) hj)
  | refused hphase hrunning => exact .inl (hshut rfl not_open_outside hj)
  | passed hphase hrunning => exact .inl (hshut rfl (by decide) hj)
  | created hphase hopen =>
      have hopened := opened_of_open hopen
      rcases open_enter hj with ⟨hopen, -⟩ | ⟨rfl, -⟩
      · exact .inl ⟨j, rfl, hopened.phase ▸ hopen⟩
      · obtain rfl := hopened.succeeds
        exact .inr ⟨rfl, hopened.admits⟩
  | uncreated hphase => exact .inl (hshut rfl not_open_outside hj)
  | written hphase => exact .inl (hkept rfl (hphase ▸ .inl rfl) hj)
  | unwritten hphase => exact .inl (hkept rfl (hphase ▸ .inl rfl) hj)
  | closed hphase => exact .inl (hshut rfl (by decide) hj)
  | @deleted i fails hphase =>
      have hsame : (s.delete fails).phase = s.phase := by
        unfold System.delete
        split
        · rfl
        · rfl
      exact .inl (hshut hsame not_open_outside hj)
  | @moved i j' howner hi hj' =>
      left
      change (Function.update (Function.update s.phase i .outside) j' .holding
        j).Open at hj
      by_cases hjj : j = j'
      · exact ⟨i, hjj ▸ howner, hi ▸ .inr (.inr rfl)⟩
      · rw [Function.update_of_ne hjj] at hj
        by_cases hji : j = i
        · exact ⟨j, rfl, hji ▸ hi ▸ .inr (.inr rfl)⟩
        · rw [Function.update_of_ne hji] at hj
          exact ⟨j, rfl, hj⟩
  | died =>
      dsimp only at hj
      split at hj
      · exact absurd hj (by decide)
      · exact .inl ⟨j, rfl, hj⟩
  | rundown => exact .inl ⟨j, rfl, hj⟩

/-- Nothing but `DeleteFileW` removes the file. -/
theorem admits_of_deleted {s s' : System ι} {a : Action ι π}
    (hstep : step owner pid s a = some s') (hbefore : s.content ≠ none)
    (hafter : s'.content = none) : s.handles.Admits deleteMode := by
  cases step_cases hstep with
  | opened hphase hopen =>
      have hcontent := (opened_of_open hopen).content_eq
      exact absurd (hcontent.symm.trans hafter) hbefore
  | created hphase hopen =>
      have hcontent := (opened_of_open hopen).content_eq
      exact absurd (hcontent.symm.trans hafter) (Option.some_ne_none _)
  | written hphase => cases hafter
  | @deleted i fails hphase =>
      change (s.delete fails).content = none at hafter
      unfold System.delete at hafter
      split at hafter
      · rename_i hadmits
        exact hadmits.2
      · exact absurd hafter hbefore
  | _ => exact absurd hafter hbefore

/-- A process holds the mutex. -/
def System.Holds (owner : ι → π) (s : System ι) (p : π) : Prop :=
  ∃ i, owner i = p ∧ s.phase i = .holding

/-- At most one process holds the mutex, and the lock file is never deleted while
one has it open. -/
theorem fsMutex_exclusive {content : Option Bytes} {s : System ι}
    (h : Reaches (step owner pid) Anything (initial content) s) :
    (∀ p q, s.Holds owner p → s.Holds owner q → p = q) ∧
      ∀ a s', step owner pid s a = some s' → s.content ≠ none →
        s'.content = none → ∀ i, ¬ (s.phase i).Open := by
  have hbacked := Backed.of_reaches h
  constructor
  · rintro p q ⟨i, rfl, hi⟩ ⟨j, rfl, hj⟩
    have heq : i = j := Handles.eq_of_exclusive (by decide)
      (hbacked i (.inr (.inr hi))) (hbacked j (.inr (.inr hj)))
    rw [heq]
  · intro a s' hstep hbefore hafter i hi
    exact Handles.not_admits (by decide) (hbacked i hi)
      (admits_of_deleted hstep hbefore hafter)

end Holders

/-! ### A pid that is used again -/

/-- A process takes the lock file that another one left, and a second process
with the same pid does not find it running. -/
def twoAcquire : List (Action Bool Bool) :=
  [.openRead true false, .read true false, .query true fun _ => none,
    .create true false, .write true false,
    .openRead false false, .read false false, .query false fun _ => none,
    .create false false]

/-- The second one is kept out by the share mode. -/
theorem fsMutex_exclusive_two :
    ∃ s : System Bool,
      runSteps (step id fun _ => 7) (initial (some (pidText 4711))) twoAcquire =
        some s ∧ s.Holds id true ∧ ¬ s.Holds id false := by
  have hholds : ∀ {s : System Bool}, s.phase true = .holding → s.Holds id true :=
    fun hs => ⟨true, rfl, hs⟩
  refine ⟨_, rfl, hholds rfl, fun hfalse => ?_⟩
  have hreaches := Reaches.start.of_runSteps (fun _ _ _ => trivial)
    (show runSteps (step id fun _ => 7) (initial (some (pidText 4711)))
      twoAcquire = some _ from rfl)
  have heq := (fsMutex_exclusive hreaches).1 true false (hholds rfl) hfalse
  cases heq

end Baulk.Mutex
