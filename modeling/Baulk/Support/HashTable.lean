import Mathlib.Data.List.Pairwise
import Mathlib.Logic.Relation

/-!
# Hash tables with a comparison of their own

A search in a hash table compares its key with the keys of the slots that it comes to.
It comes to every slot whose key has the same hash, and perhaps to others; which ones
they are depends on the layout of the table.  If equal keys have equal hashes, the
layout does not matter: a search finds a key exactly if an equal one is stored, and no
two stored keys are equal.
-/

namespace Baulk.Support

/-- A comparison of keys, and a hash that goes with it. -/
structure Keying (κ η : Type*) where
  hash : κ → η
  eq : κ → κ → Bool
  refl : ∀ k, eq k k = true
  symm : ∀ {k k'}, eq k k' = true → eq k' k = true
  trans : ∀ {k k' k''}, eq k k' = true → eq k' k'' = true → eq k k'' = true
  hash_eq : ∀ {k k'}, eq k k' = true → hash k = hash k'

namespace Keying

variable {κ η ν : Type*} (keying : Keying κ η)

/-- The slots that a search for `k` comes to. -/
structure Probe (k : κ) where
  sees : κ → Bool
  own : ∀ k', keying.hash k' = keying.hash k → sees k' = true

variable {keying}

def find {k : κ} (probe : keying.Probe k) (table : List (κ × ν)) : Option (κ × ν) :=
  table.find? fun entry => probe.sees entry.1 && keying.eq entry.1 k

/-- What a call does with the value of its key. -/
inductive Action (ν : Type*) where
  /-- Insert a value unless the key is there. -/
  | emplace (v : ν)
  /-- Insert a value, or replace that of the key. -/
  | assign (v : ν)
  | erase

variable (keying ν)

/-- A call on a table. -/
structure Call where
  key : κ
  probe : keying.Probe key
  action : Action ν

variable {keying ν}

/-- Change what a search for `k` finds. -/
def update {k : κ} (probe : keying.Probe k) (f : κ × ν → κ × ν) (table : List (κ × ν)) :
    List (κ × ν) :=
  table.map fun entry => if probe.sees entry.1 && keying.eq entry.1 k then f entry else entry

def step (table : List (κ × ν)) (call : keying.Call ν) : List (κ × ν) :=
  match find call.probe table, call.action with
  | none, .emplace v => table ++ [(call.key, v)]
  | none, .assign v => table ++ [(call.key, v)]
  | none, .erase => table
  | some _, .emplace _ => table
  | some _, .assign v => update call.probe (fun entry => (entry.1, v)) table
  | some _, .erase =>
      table.filter fun entry => !(call.probe.sees entry.1 && keying.eq entry.1 call.key)

/-- A table after some calls. -/
def run (calls : List (keying.Call ν)) : List (κ × ν) :=
  calls.foldl step []

variable (keying) in
/-- No two keys are equal. -/
def Distinct (table : List (κ × ν)) : Prop :=
  table.Pairwise fun e e' => keying.eq e.1 e'.1 = false

/-- A search comes to every key that is equal to its own. -/
theorem Probe.sees_of_eq {k k' : κ} (probe : keying.Probe k) (h : keying.eq k' k = true) :
    probe.sees k' = true :=
  probe.own k' (keying.hash_eq h)

theorem Probe.test_eq {k : κ} (probe : keying.Probe k) (k' : κ) :
    (probe.sees k' && keying.eq k' k) = keying.eq k' k := by
  cases h : keying.eq k' k with
  | false => exact Bool.and_false _
  | true => rw [probe.sees_of_eq h, Bool.and_self]

theorem find_eq {k : κ} (probe : keying.Probe k) (table : List (κ × ν)) :
    find probe table = table.find? fun entry => keying.eq entry.1 k := by
  unfold find
  simp only [probe.test_eq]

theorem find_eq_none_iff {k : κ} {probe : keying.Probe k} {table : List (κ × ν)} :
    find probe table = none ↔ ∀ entry ∈ table, keying.eq entry.1 k = false := by
  rw [find_eq, List.find?_eq_none]
  simp only [Bool.not_eq_true]

theorem find_of_mem {k : κ} (probe : keying.Probe k) {table : List (κ × ν)}
    (h : keying.Distinct table) {entry : κ × ν} (hmem : entry ∈ table)
    (heq : keying.eq entry.1 k = true) : find probe table = some entry := by
  rw [find_eq]
  induction table with
  | nil => exact absurd hmem List.not_mem_nil
  | cons first table ih =>
      obtain ⟨hfirst, hrest⟩ := List.pairwise_cons.mp h
      rcases List.mem_cons.mp hmem with rfl | hmem
      · exact List.find?_cons_of_pos heq
      · have hne : ¬keying.eq first.1 k = true := by
          intro hk
          have hboth := keying.trans hk (keying.symm heq)
          rw [hfirst entry hmem] at hboth
          contradiction
        have hskip := List.find?_cons_of_neg (p := fun entry : κ × ν => keying.eq entry.1 k)
          (l := table) hne
        exact hskip.trans (ih hrest hmem)

/-! ## What a call leaves to be found -/

/-- What a search for the key of a call finds afterwards, from what it found before. -/
def Action.leaves (key : κ) (found : Option (κ × ν)) : Action ν → Option (κ × ν)
  | .emplace v => some (found.getD (key, v))
  | .assign v => some ((found.map Prod.fst).getD key, v)
  | .erase => none

theorem eq_congr {k k' : κ} (h : keying.eq k k' = true) (x : κ) :
    keying.eq x k = keying.eq x k' := by
  rw [Bool.eq_iff_iff]
  exact ⟨fun hx => keying.trans hx h, fun hx => keying.trans hx (keying.symm h)⟩

theorem find_congr {k k' : κ} (probe : keying.Probe k) (probe' : keying.Probe k')
    (h : keying.eq k k' = true) (table : List (κ × ν)) :
    find probe table = find probe' table := by
  simp only [find_eq, eq_congr h]

/-- Changing values does not change which keys are found. -/
theorem find_update {k k' : κ} (probe : keying.Probe k) (probe' : keying.Probe k')
    (v : ν) (table : List (κ × ν)) :
    find probe' (update probe (fun entry => (entry.1, v)) table) =
      (find probe' table).map fun entry =>
        if probe.sees entry.1 && keying.eq entry.1 k then (entry.1, v) else entry := by
  have hkey : ((fun entry : κ × ν => keying.eq entry.1 k') ∘ fun entry =>
      if probe.sees entry.1 && keying.eq entry.1 k then (entry.1, v) else entry) =
      fun entry => keying.eq entry.1 k' := by
    funext entry
    dsimp only [Function.comp_apply]
    split <;> rfl
  rw [find_eq, find_eq, update, List.find?_map, hkey]

theorem find_step_self (table : List (κ × ν)) (call : keying.Call ν) {k : κ}
    (probe : keying.Probe k) (h : keying.eq call.key k = true) :
    find probe (step table call) = call.action.leaves call.key (find probe table) := by
  rw [find_congr probe call.probe (keying.symm h), find_congr probe call.probe (keying.symm h)]
  have hnew : ∀ v, find call.probe table = none →
      find call.probe (table ++ [(call.key, v)]) = some (call.key, v) := by
    intro v hnone
    rw [find_eq] at hnone ⊢
    rw [List.find?_append, hnone, Option.none_or]
    exact List.find?_cons_of_pos (keying.refl call.key)
  unfold step
  cases hfind : find call.probe table with
  | none =>
      cases call.action with
      | emplace v => exact hnew v hfind
      | assign v => exact hnew v hfind
      | erase => exact hfind
  | some entry =>
      cases call.action with
      | emplace v => exact hfind
      | assign v =>
          have htest := List.find?_some hfind
          dsimp only at htest ⊢
          rw [find_update, hfind, Option.map_some, if_pos htest]
          rfl
      | erase =>
          refine find_eq_none_iff.mpr fun e he => ?_
          have hkept := (List.mem_filter.mp he).2
          rw [call.probe.test_eq, Bool.not_eq_true'] at hkept
          exact hkept

theorem find_step_other (table : List (κ × ν)) (call : keying.Call ν) {k : κ}
    (probe : keying.Probe k) (h : keying.eq call.key k = false) :
    find probe (step table call) = find probe table := by
  have hother : ∀ {x : κ}, keying.eq x k = true → keying.eq x call.key = false := by
    intro x hx
    rw [Bool.eq_false_iff]
    intro hcall
    rw [keying.trans (keying.symm hcall) hx] at h
    cases h
  have hnew : ∀ v, find probe (table ++ [(call.key, v)]) = find probe table := by
    intro v
    have hlast : [(call.key, v)].find? (fun entry => keying.eq entry.1 k) = none := by
      rw [List.find?_cons, h]
      rfl
    rw [find_eq, find_eq, List.find?_append, hlast, Option.or_none]
  unfold step
  cases find call.probe table with
  | none =>
      cases call.action with
      | emplace v => exact hnew v
      | assign v => exact hnew v
      | erase => rfl
  | some _ =>
      cases call.action with
      | emplace v => rfl
      | assign v =>
          dsimp only
          rw [find_update]
          cases hfind : find probe table with
          | none => rfl
          | some entry =>
              rw [find_eq] at hfind
              have hk : keying.eq entry.1 k = true :=
                List.find?_some (p := fun e : κ × ν => keying.eq e.1 k) hfind
              rw [Option.map_some, call.probe.test_eq, hother hk]
              rfl
      | erase =>
          dsimp only
          rw [find_eq, find_eq, List.find?_filter]
          congr 1
          funext entry
          rw [call.probe.test_eq]
          cases hk : keying.eq entry.1 k with
          | false => simp
          | true => simp [hother hk]

/-! ## Runs -/

theorem find_run_concat (calls : List (keying.Call ν)) (call : keying.Call ν) {k : κ}
    (probe : keying.Probe k) :
    find probe (run (calls ++ [call])) =
      if keying.eq call.key k then call.action.leaves call.key (find probe (run calls))
      else find probe (run calls) := by
  rw [run, List.foldl_append, List.foldl_cons, List.foldl_nil]
  cases h : keying.eq call.key k with
  | true => exact find_step_self _ call probe h
  | false => exact find_step_other _ call probe h

theorem Distinct.concat {table : List (κ × ν)} (h : keying.Distinct table) {k : κ} {v : ν}
    (hnew : ∀ entry ∈ table, keying.eq entry.1 k = false) :
    keying.Distinct (table ++ [(k, v)]) := by
  refine List.pairwise_append.mpr ⟨h, List.pairwise_singleton _ _, ?_⟩
  intro entry hentry last hlast
  rw [List.mem_singleton.mp hlast]
  exact hnew entry hentry

theorem Distinct.step {table : List (κ × ν)} (h : keying.Distinct table)
    (call : keying.Call ν) : keying.Distinct (step table call) := by
  unfold Keying.step
  cases hfind : find call.probe table with
  | none =>
      have hnew := find_eq_none_iff.mp hfind
      cases call.action with
      | emplace v => exact h.concat hnew
      | assign v => exact h.concat hnew
      | erase => exact h
  | some entry =>
      cases call.action with
      | emplace v => exact h
      | assign v =>
          refine List.pairwise_map.mpr (h.imp ?_)
          intro e e' hne
          split <;> split <;> exact hne
      | erase => exact h.sublist List.filter_sublist

theorem distinct_run (calls : List (keying.Call ν)) : keying.Distinct (run calls) := by
  have hrun : ∀ {table : List (κ × ν)}, keying.Distinct table →
      keying.Distinct (calls.foldl Keying.step table) := by
    induction calls with
    | nil => exact id
    | cons call calls ih => exact fun h => ih (h.step call)
  exact hrun List.Pairwise.nil

end Keying

end Baulk.Support
