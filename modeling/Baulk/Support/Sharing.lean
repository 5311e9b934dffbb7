import Mathlib.Data.List.Pairwise

/-!
# Files that several processes open

A handle is opened for some accesses and leaves some to others.  A file is opened
only if every open handle leaves what is asked for, and the other way round; so
every two open handles of a file are compatible.
-/

namespace Baulk.Support

/-- What a handle is opened for, or leaves to others. -/
structure Rights where
  read : Bool := false
  write : Bool := false
  delete : Bool := false
  deriving DecidableEq

def Rights.within (a b : Rights) : Bool :=
  (!a.read || b.read) && (!a.write || b.write) && (!a.delete || b.delete)

/-- The desired access and the share mode. -/
structure Mode where
  access : Rights
  share : Rights
  deriving DecidableEq

/-- Each leaves to the other what that is opened for. -/
def Mode.compatible (m n : Mode) : Bool :=
  m.access.within n.share && n.access.within m.share

theorem Mode.compatible_comm (m n : Mode) : m.compatible n = n.compatible m :=
  Bool.and_comm _ _

variable {ι : Type}

/-- The open handles of a file, each with who opened it. -/
structure Handles (ι : Type) where
  entries : List (ι × Mode)
  compatible : entries.Pairwise fun a b => a.2.compatible b.2 = true

namespace Handles

/-- Nobody has the file open. -/
def empty : Handles ι where
  entries := []
  compatible := List.Pairwise.nil

/-- The file can be opened. -/
def Admits (h : Handles ι) (m : Mode) : Prop :=
  ∀ e ∈ h.entries, m.compatible e.2 = true

instance (h : Handles ι) (m : Mode) : Decidable (h.Admits m) :=
  inferInstanceAs (Decidable (∀ e ∈ h.entries, m.compatible e.2 = true))

/-- One more handle. -/
def add (h : Handles ι) (i : ι) (m : Mode) (hm : h.Admits m) : Handles ι where
  entries := (i, m) :: h.entries
  compatible := List.pairwise_cons.mpr ⟨hm, h.compatible⟩

def close (h : Handles ι) (who : ι → Bool) : Handles ι where
  entries := h.entries.filter fun e => !who e.1
  compatible := h.compatible.sublist List.filter_sublist

/-- The handles get other owners. -/
def pass (h : Handles ι) (f : ι → ι) : Handles ι where
  entries := h.entries.map fun e => (f e.1, e.2)
  compatible := List.pairwise_map.mpr h.compatible

theorem mem_close {h : Handles ι} {who : ι → Bool} {i : ι} {m : Mode} :
    (i, m) ∈ (h.close who).entries ↔ (i, m) ∈ h.entries ∧ who i = false := by
  rw [close, List.mem_filter, Bool.not_eq_true']

theorem mem_pass {h : Handles ι} {i : ι} {m : Mode} (f : ι → ι)
    (hmem : (i, m) ∈ h.entries) : (f i, m) ∈ (h.pass f).entries :=
  List.mem_map.mpr ⟨(i, m), hmem, rfl⟩

/-- A mode that leaves nothing of what it asks for is open at most once. -/
theorem eq_of_exclusive {h : Handles ι} {m : Mode}
    (hm : m.compatible m = false) {i j : ι} (hi : (i, m) ∈ h.entries)
    (hj : (j, m) ∈ h.entries) : i = j := by
  by_contra hne
  have hsymm : Std.Symm fun a b : ι × Mode => a.2.compatible b.2 = true :=
    ⟨fun a b hab => (Mode.compatible_comm b.2 a.2).trans hab⟩
  have hpair : m.compatible m = true :=
    h.compatible.forall hi hj fun heq => hne (congrArg Prod.fst heq)
  rw [hm] at hpair
  cases hpair

/-- Nobody opens a file whose handles do not leave that. -/
theorem not_admits {h : Handles ι} {m n : Mode} (hmn : m.compatible n = false)
    {i : ι} (hi : (i, n) ∈ h.entries) : ¬ h.Admits m := by
  intro hadmits
  have hcompatible := hadmits (i, n) hi
  rw [hmn] at hcompatible
  cases hcompatible

end Handles

end Baulk.Support
