import Baulk.Archive.Symlink
import Baulk.Core.Time

/-!
# Extraction into a directory

Both extractors act on the file system through the same few functions, and
both report every chunk of data to a callback before they write it.  The log of
an extraction records these calls in order.  Whether a call fails may depend on
everything before it.
-/

namespace Baulk.Archive

structure ExtractorOptions where
  ignoreError : Bool := false
  overwriteMode : Bool := true

/-- What an extraction does. -/
inductive Action where
  /-- The loop comes to the entry with this number. -/
  | entry (index : Nat)
  /-- `fs::create_directories`, for the destination. -/
  | createDirectories (path : WinPath)
  | makeDirectories (path : WinPath) (modified : Time)
  | newSymlink (path : WinPath) (source : WString) (overwrite : Bool)
  | newFile (path : WinPath) (modified : Time) (overwrite : Bool)
  /-- The progress callback is called. -/
  | report (bytes : Nat)
  /-- `WriteFull` on the current file. -/
  | write (chunk : Bytes)
  /-- `Discard` of the current file. -/
  | discard

namespace Action

/-- The call creates something or writes to it. -/
def touches : Action → Bool
  | makeDirectories _ _ => true
  | newSymlink _ _ _ => true
  | newFile _ _ _ => true
  | write _ => true
  | _ => false

end Action

/-- The calls of an extraction so far. -/
abbrev Log := List Action

namespace Log

/-- What the progress callback was told. -/
def reported (log : Log) : List Nat :=
  log.filterMap fun
    | .report bytes => some bytes
    | _ => none

/-- The entry that the loop has come to. -/
def current (log : Log) : Option Nat :=
  log.foldl (fun i action =>
    match action with
    | .entry j => some j
    | _ => i) none

/-- Add to the content of the last file. -/
def appendToLast (chunk : Bytes) :
    List (WinPath × Bytes) → List (WinPath × Bytes)
  | [] => []
  | [(path, content)] => [(path, content ++ chunk)]
  | file :: files => file :: appendToLast chunk files

/-- The files that were created and not discarded, with what was written to
them. -/
def files (log : Log) : List (WinPath × Bytes) :=
  log.foldl (fun files action =>
    match action with
    | .newFile path _ _ => files ++ [(path, [])]
    | .write chunk => appendToLast chunk files
    | .discard => files.dropLast
    | _ => files) []

end Log

/-- How a call fails: with an error of the system, or with `ErrGeneral` for a
file that exists. -/
structure FsError where
  message : WString
  code : Nat
  pos : 0 < code
  le : (code : Int) ≤ ErrorCode.errGeneral

def FsError.toErrorCode (e : FsError) : ErrorCode :=
  ErrorCode.make e.code e.message

/-- What surrounds an extraction. -/
structure Host where
  destination : WinPath
  options : ExtractorOptions
  /-- The flag asks for UTF-8. -/
  encodeToNativePath : Bool → Bytes → WString
  /-- Whether the last call fails. -/
  disk : Log → Option FsError
  /-- What `create_symlink` asks the system for. -/
  symlinks : Log → SymlinkSystem
  /-- The progress callback, which has seen every chunk so far. -/
  progress : List Nat → Bool

/-- The result of `Extract`, and of the functions below it. -/
structure Extracted where
  ok : Bool
  ec : ErrorCode
  log : Log

/-- The answer to a chunk of data. -/
inductive Verdict where
  | accepted
  /-- The progress callback has returned false. -/
  | canceled
  /-- The chunk could not be written. -/
  | failed (e : FsError)

namespace Host

/-- Make a call. -/
def perform (host : Host) (action : Action) (ec : ErrorCode) (log : Log) :
    Extracted :=
  let log := log ++ [action]
  match host.disk log with
  | none => ⟨true, ec, log⟩
  | some e => ⟨false, e.toErrorCode, log⟩

/-- Create a symbolic link with one of the two functions `create_symlink`. -/
def symlink (host : Host)
    (create : SymlinkSystem → (WinPath → WString → Bool × ErrorCode) →
      WinPath → WinPath → Bytes → SymlinkOutcome)
    (link : WinPath) (linkname : Bytes) (ec : ErrorCode) (log : Log) :
    Extracted :=
  let newSymlink := fun path source => Action.newSymlink path source
    host.options.overwriteMode
  let o := create (host.symlinks log)
    (fun path source =>
      let r := host.perform (newSymlink path source) ec log
      (r.ok, r.ec))
    host.destination link linkname
  ⟨o.ok, o.ec, log ++ o.calls.map fun call => newSymlink call.1 call.2⟩

/-- Report a chunk and write it: the writers of both extractors. -/
def consume (host : Host) (chunk : Bytes) (log : Log) : Verdict × Log :=
  let log := log ++ [.report chunk.length]
  if !host.progress (Log.reported log) then (.canceled, log)
  else
    let log := log ++ [.write chunk]
    match host.disk log with
    | none => (.accepted, log)
    | some e => (.failed e, log)

/-- The log after some chunks. -/
def consumeAll (host : Host) (log : Log) (chunks : List Bytes) : Log :=
  chunks.foldl (fun log chunk => (host.consume chunk log).2) log

/-- The answer to the last of some chunks. -/
def verdict (host : Host) (log : Log) (chunks : List Bytes) : Verdict :=
  match chunks.getLast? with
  | none => .accepted
  | some chunk => (host.consume chunk (host.consumeAll log chunks.dropLast)).1

/-- The callback has returned false for the last report. -/
def Refuses (host : Host) (log : Log) : Prop :=
  host.progress (Log.reported log) = false

/-- The same surroundings with a callback that never returns false. -/
def uncanceled (host : Host) : Host :=
  { host with progress := fun _ => true }

end Host

/-! ## Within one entry -/

/-- The second log continues the first one within an entry. -/
def Log.Continues (log log' : Log) : Prop :=
  ∃ added, log' = log ++ added ∧ ∀ i, Action.entry i ∉ added

theorem Log.Continues.refl (log : Log) : log.Continues log :=
  ⟨[], (List.append_nil log).symm, by simp⟩

theorem Log.Continues.trans {log log' log'' : Log} (h : log.Continues log')
    (h' : log'.Continues log'') : log.Continues log'' := by
  obtain ⟨added, rfl, hadded⟩ := h
  obtain ⟨added', rfl, hadded'⟩ := h'
  refine ⟨added ++ added', List.append_assoc .., ?_⟩
  intro i hi
  rcases List.mem_append.mp hi with hi | hi
  · exact hadded i hi
  · exact hadded' i hi

theorem Log.before_or_after {log before after : Log} {action : Action}
    (h : log <+: before ++ action :: after) :
    log <+: before ∨ before ++ [action] <+: log := by
  have hsplit : before ++ action :: after = before ++ [action] ++ after := by
    simp
  rw [hsplit] at h
  rcases List.prefix_or_prefix_of_prefix h (List.prefix_append _ _) with
    hlog | hlog
  · rcases List.prefix_concat_iff.mp hlog with rfl | hlog
    · exact .inr (List.prefix_refl _)
    · exact .inl hlog
  · exact .inr hlog

theorem Log.current_append {log added : Log} {i : Nat}
    (hadded : ∀ j, Action.entry j ∉ added) :
    (log ++ .entry i :: added).current = some i := by
  rw [Log.current, List.foldl_append, List.foldl_cons]
  induction added with
  | nil => rfl
  | cons action added ih =>
      rw [List.foldl_cons]
      have hrest := ih fun j hj => hadded j (List.mem_cons_of_mem _ hj)
      cases action with
      | entry j => exact absurd List.mem_cons_self (hadded j)
      | _ => exact hrest

namespace Host

variable {host : Host}

theorem perform_log (host : Host) (action : Action) (ec : ErrorCode)
    (log : Log) : (host.perform action ec log).log = log ++ [action] := by
  unfold perform
  dsimp only
  split <;> rfl

theorem consume_log (host : Host) (chunk : Bytes) (log : Log) :
    ∃ rest, (host.consume chunk log).2 =
        log ++ .report chunk.length :: rest ∧
      ∀ action ∈ rest, ∃ c, action = .write c := by
  unfold consume
  dsimp only
  split
  · exact ⟨[], rfl, by simp⟩
  · refine ⟨[.write chunk], ?_, by simp⟩
    split <;> exact List.append_assoc ..

theorem consumeAll_concat (host : Host) (log : Log) (chunks : List Bytes)
    (chunk : Bytes) :
    host.consumeAll log (chunks ++ [chunk]) =
      (host.consume chunk (host.consumeAll log chunks)).2 := by
  rw [consumeAll, consumeAll, List.foldl_append, List.foldl_cons,
    List.foldl_nil]

theorem verdict_concat (host : Host) (log : Log) (chunks : List Bytes)
    (chunk : Bytes) :
    host.verdict log (chunks ++ [chunk]) =
      (host.consume chunk (host.consumeAll log chunks)).1 := by
  rw [verdict, List.getLast?_concat, List.dropLast_concat]

theorem consumeAll_continues (host : Host) (log : Log) (chunks : List Bytes) :
    log.Continues (host.consumeAll log chunks) := by
  induction chunks using List.reverseRecOn with
  | nil => exact Log.Continues.refl log
  | append_singleton chunks chunk ih =>
      rw [consumeAll_concat]
      obtain ⟨rest, heq, hrest⟩ :=
        host.consume_log chunk (host.consumeAll log chunks)
      refine ih.trans ⟨_, heq, ?_⟩
      intro i hi
      rcases List.mem_cons.mp hi with hi | hi
      · contradiction
      · obtain ⟨c, hc⟩ := hrest _ hi
        contradiction

theorem exists_canceled_of_refuses (host : Host) {log before after : Log}
    {chunks : List Bytes} {n : Nat}
    (hlog : host.consumeAll log chunks = before ++ .report n :: after)
    (hbefore : log <+: before)
    (hrefuses : host.Refuses (before ++ [.report n])) :
    ∃ front, front <+: chunks ∧ front ≠ [] ∧
      host.verdict log front = .canceled := by
  induction chunks using List.reverseRecOn generalizing after with
  | nil =>
      have hlength := hbefore.length_le
      have heq := congrArg List.length hlog
      rw [show host.consumeAll log [] = log from rfl] at heq
      simp only [List.length_append, List.length_cons] at heq
      omega
  | append_singleton chunks chunk ih =>
      obtain ⟨rest, heq, hrest⟩ :=
        host.consume_log chunk (host.consumeAll log chunks)
      rw [consumeAll_concat, heq] at hlog
      have hearlier : ∀ tail, host.consumeAll log chunks =
          before ++ .report n :: tail → ∃ front, front <+: chunks ++ [chunk] ∧
            front ≠ [] ∧ host.verdict log front = .canceled := by
        intro tail htail
        obtain ⟨front, hfront, hne, hcanceled⟩ := ih htail
        exact ⟨front, hfront.trans (List.prefix_append _ _), hne, hcanceled⟩
      have hhere : host.consumeAll log chunks = before → n = chunk.length →
          ∃ front, front <+: chunks ++ [chunk] ∧ front ≠ [] ∧
            host.verdict log front = .canceled := by
        rintro rfl rfl
        refine ⟨chunks ++ [chunk], List.prefix_refl _, by simp, ?_⟩
        rw [verdict_concat, consume]
        dsimp only
        rw [show host.progress _ = false from hrefuses]
        rfl
      rcases List.append_eq_append_iff.mp hlog with
        ⟨tail, hsplit, hcons⟩ | ⟨tail, hsplit, hcons⟩
      · cases tail with
        | nil =>
            rw [List.nil_append] at hcons
            cases hcons
            exact hhere (by simpa using hsplit.symm) rfl
        | cons action tail =>
            rw [List.cons_append, List.cons.injEq] at hcons
            obtain ⟨c, hc⟩ := hrest (.report n) (by rw [hcons.2]; simp)
            contradiction
      · cases tail with
        | nil =>
            rw [List.nil_append] at hcons
            cases hcons
            exact hhere (by simpa using hsplit) rfl
        | cons action tail =>
            rw [List.cons_append, List.cons.injEq] at hcons
            obtain ⟨rfl, -⟩ := hcons
            exact hearlier tail hsplit

theorem consume_uncanceled (host : Host) (chunk : Bytes) (log : Log) :
    host.uncanceled.consume chunk log = host.consume chunk log ∨
      (host.consume chunk log).1 = .canceled := by
  cases haccepted : host.progress (Log.reported (log ++ [.report chunk.length])) with
  | true =>
      left
      simp only [consume, haccepted]
      rfl
  | false =>
      right
      simp only [consume, haccepted]
      rfl

/-- Until the callback refuses a chunk, the log is that of a run without refusals. -/
theorem consumeAll_uncanceled {host : Host} {log : Log} {chunks : List Bytes}
    (h : ∀ front, front <+: chunks → front ≠ [] → host.verdict log front ≠ .canceled) :
    host.uncanceled.consumeAll log chunks = host.consumeAll log chunks := by
  induction chunks using List.reverseRecOn with
  | nil => rfl
  | append_singleton chunks chunk ih =>
      have hearlier := ih fun front hfront =>
        h front (hfront.trans (List.prefix_append _ _))
      have hlast := h (chunks ++ [chunk]) (List.prefix_refl _) (by simp)
      rw [verdict_concat] at hlast
      rw [consumeAll_concat, consumeAll_concat, hearlier]
      exact congrArg Prod.snd
        ((host.consume_uncanceled chunk _).resolve_right hlast)

theorem verdict_uncanceled {host : Host} {log : Log} {chunks : List Bytes}
    (h : ∀ front, front <+: chunks → front ≠ [] → host.verdict log front ≠ .canceled)
    (chunk : Bytes) :
    host.uncanceled.verdict log (chunks ++ [chunk]) = host.verdict log (chunks ++ [chunk]) ∨
      host.verdict log (chunks ++ [chunk]) = .canceled := by
  rw [verdict_concat, verdict_concat, consumeAll_uncanceled h]
  exact (host.consume_uncanceled chunk _).imp_left (congrArg Prod.fst)

end Host

/-! ## Whole logs -/

/-- The second log continues the first one without a report. -/
def Log.Unreported (log log' : Log) : Prop :=
  ∃ added, log' = log ++ added ∧ ∀ n, Action.report n ∉ added

theorem Log.unreported_concat (log : Log) {action : Action}
    (h : ∀ n, action ≠ .report n) : log.Unreported (log ++ [action]) := by
  refine ⟨[action], rfl, ?_⟩
  intro n hn
  exact h n (List.mem_singleton.mp hn).symm

theorem Log.unreported_map {α : Type} (log : Log) (calls : List α)
    {f : α → Action} (h : ∀ a n, f a ≠ .report n) :
    log.Unreported (log ++ calls.map f) := by
  refine ⟨calls.map f, rfl, ?_⟩
  intro n hn
  obtain ⟨a, -, ha⟩ := List.mem_map.mp hn
  exact h a n ha

/-- The callback has accepted every report. -/
def Host.AcceptsAll (host : Host) (log : Log) : Prop :=
  ∀ before n after, log = before ++ .report n :: after →
    ¬host.Refuses (before ++ [.report n])

theorem Host.AcceptsAll.unreported {host : Host} {log log' : Log}
    (h : host.AcceptsAll log) (hlog : log.Unreported log') :
    host.AcceptsAll log' := by
  obtain ⟨added, rfl, hadded⟩ := hlog
  intro before n after heq
  have hprefix : log <+: before ++ .report n :: after := by
    rw [← heq]
    exact List.prefix_append _ _
  rcases Log.before_or_after hprefix with ⟨rest, rfl⟩ | ⟨tail, htail⟩
  · rw [List.append_assoc, List.append_cancel_left_eq] at heq
    exact absurd (by rw [heq]; simp) (hadded n)
  · exact h before n tail (by rw [← htail]; simp)

/-- A report of a chunk that is refused is that of a chunk which is
canceled. -/
theorem Host.AcceptsAll.consumeAll {host : Host} {log : Log}
    (h : host.AcceptsAll log) (chunks : List Bytes) :
    host.AcceptsAll (host.consumeAll log chunks) ∨
      ∃ front, front <+: chunks ∧ front ≠ [] ∧
        host.verdict log front = .canceled := by
  rw [or_iff_not_imp_right]
  intro hnone before n after heq hrefuses
  have hprefix : log <+: before ++ .report n :: after := by
    obtain ⟨added, hadded, -⟩ := host.consumeAll_continues log chunks
    rw [← heq, hadded]
    exact List.prefix_append _ _
  rcases Log.before_or_after hprefix with hbefore | ⟨tail, htail⟩
  · exact hnone (host.exists_canceled_of_refuses heq hbefore hrefuses)
  · exact h before n tail (by rw [← htail]; simp) hrefuses

end Baulk.Archive
