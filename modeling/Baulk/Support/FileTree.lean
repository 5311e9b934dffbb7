import Mathlib.Data.List.Perm.Subperm

/-!
# Folders

A folder is a list of entries, each a file or a folder.  The names are of any
type and the content of a file is of any type.  A path that is renamed or removed
holds an item or nothing; either operation may fail, and one that removes may
fail half way.
-/

namespace Baulk.Support

variable {κ β : Type}

/-- The entries of a folder, in the order of its listing. -/
inductive Folder (κ β : Type) where
  | nil
  | file (name : κ) (content : β) (rest : Folder κ β)
  | folder (name : κ) (inner : Folder κ β) (rest : Folder κ β)
  deriving DecidableEq

/-- A file or a folder. -/
inductive Item (κ β : Type) where
  | file (content : β)
  | folder (inner : Folder κ β)
  deriving DecidableEq

namespace Folder

/-- All files below a folder, with their names. -/
def files : Folder κ β → List (κ × β)
  | nil => []
  | file name content rest => (name, content) :: rest.files
  | folder _ inner rest => inner.files ++ rest.files

/-- What is left if removing the folder stops half way: the files that were not
reached, and the folders that were not reached or are not empty. -/
def leave (stays : List κ → Bool) (path : List κ) : Folder κ β → Folder κ β
  | nil => nil
  | file name content rest =>
      if stays (path ++ [name]) then
        file name content (rest.leave stays path)
      else rest.leave stays path
  | folder name inner rest =>
      match inner.leave stays (path ++ [name]), stays (path ++ [name]) with
      | nil, false => rest.leave stays path
      | inner, _ => folder name inner (rest.leave stays path)

/-- Every entry of the folder itself has a property. -/
def All (p : κ → Item κ β → Prop) : Folder κ β → Prop
  | nil => True
  | file name content rest => p name (.file content) ∧ rest.All p
  | folder name inner rest => p name (.folder inner) ∧ rest.All p

/-- Add an entry at the front. -/
def cons (name : κ) (item : Item κ β) (rest : Folder κ β) : Folder κ β :=
  match item with
  | .file content => file name content rest
  | .folder inner => folder name inner rest

/-- Add an entry at the end. -/
def add (name : κ) (item : Item κ β) : Folder κ β → Folder κ β
  | nil => cons name item nil
  | file n content rest => file n content (rest.add name item)
  | folder n inner rest => folder n inner (rest.add name item)

variable [DecidableEq κ]

/-- The entry of a name. -/
def get (name : κ) : Folder κ β → Option (Item κ β)
  | nil => none
  | file n content rest => if n = name then some (.file content) else rest.get name
  | folder n inner rest => if n = name then some (.folder inner) else rest.get name

/-- The folder without the entry of a name. -/
def erase (name : κ) : Folder κ β → Folder κ β
  | nil => nil
  | file n content rest =>
      if n = name then rest else file n content (rest.erase name)
  | folder n inner rest =>
      if n = name then rest else folder n inner (rest.erase name)

/-- The names within each folder differ. -/
def Distinct : Folder κ β → Prop
  | nil => True
  | file name _ rest => rest.get name = none ∧ rest.Distinct
  | folder name inner rest =>
      rest.get name = none ∧ inner.Distinct ∧ rest.Distinct

/-- The folder without the item at a path below it. -/
def detach : List κ → Folder κ β → Folder κ β
  | [], f => f
  | _ :: _, nil => nil
  | n :: path, file name content rest =>
      if name = n ∧ path = [] then rest
      else file name content (rest.detach (n :: path))
  | n :: path, folder name inner rest =>
      if name = n then
        if path = [] then rest else folder name (inner.detach path) rest
      else folder name inner (rest.detach (n :: path))

end Folder

/-! ## Renaming and removing -/

/-- The files below a path. -/
def itemFiles (name : κ) : Option (Item κ β) → List (κ × β)
  | none => []
  | some (.file content) => [(name, content)]
  | some (.folder inner) => inner.files

/-- The names within each folder differ. -/
def Item.Distinct [DecidableEq κ] : Item κ β → Prop
  | .file _ => True
  | .folder inner => inner.Distinct

/-- What two paths hold after renaming one to the other, and whether that worked.
A file replaces a file; nothing else is replaced. -/
def rename (fails : Bool) (source target : Option (Item κ β)) :
    Bool × Option (Item κ β) × Option (Item κ β) :=
  if fails then (false, source, target)
  else
    match source, target with
    | some item, none => (true, none, some item)
    | some (.file content), some (.file _) => (true, none, some (.file content))
    | source, target => (false, source, target)

/-- What a path holds after removing all of it, and whether that worked.  A
failure says which paths stay. -/
def removeAll (failure : Option (List κ → Bool)) (item : Option (Item κ β)) :
    Bool × Option (Item κ β) :=
  match failure, item with
  | none, _ => (true, none)
  | some stays, some (.folder inner) =>
      (false, some (.folder (inner.leave stays [])))
  | some _, item => (false, item)

/-- A rename that works moves the item, any other one changes nothing. -/
theorem rename_cases (fails : Bool) (source target : Option (Item κ β)) :
    (rename fails source target = (false, source, target)) ∨
      fails = false ∧ source ≠ none ∧
        rename fails source target = (true, none, source) := by
  cases fails with
  | true => exact .inl rfl
  | false =>
      rcases source with _ | (content | inner)
      · exact .inl rfl
      · rcases target with _ | (content' | inner')
        · exact .inr ⟨rfl, nofun, rfl⟩
        · exact .inr ⟨rfl, nofun, rfl⟩
        · exact .inl rfl
      · rcases target with _ | (content' | inner')
        · exact .inr ⟨rfl, nofun, rfl⟩
        · exact .inl rfl
        · exact .inl rfl

theorem rename_to_folder (fails : Bool) (source : Option (Item κ β))
    (inner : Folder κ β) :
    rename fails source (some (.folder inner)) =
      (false, source, some (.folder inner)) := by
  cases fails with
  | true => rfl
  | false =>
      rcases source with _ | (content | inner')
      · rfl
      · rfl
      · rfl

theorem rename_to_free (fails : Bool) (source : Option (Item κ β)) :
    (fails = false ∧ source ≠ none ∧
      rename fails source none = (true, none, source)) ∨
    (fails = true ∨ source = none) ∧
      rename fails source none = (false, source, none) := by
  cases fails with
  | true => exact .inr ⟨.inl rfl, rfl⟩
  | false =>
      cases source with
      | none => exact .inr ⟨.inr rfl, rfl⟩
      | some item => exact .inl ⟨rfl, nofun, rfl⟩

theorem rename_of_free {source : Item κ β} :
    rename false (some source) (none : Option (Item κ β)) =
      (true, none, some source) :=
  rfl

theorem rename_folder {fails : Bool} {inner : Folder κ β}
    {target : Option (Item κ β)} (h : ¬ (fails = false ∧ target = none)) :
    rename fails (some (.folder inner)) target =
      (false, some (.folder inner), target) := by
  cases fails with
  | true => rfl
  | false =>
      cases target with
      | none => exact absurd ⟨rfl, rfl⟩ h
      | some item =>
          cases item with
          | file content => rfl
          | folder inner' => rfl

/-! ## The entries of a folder -/

namespace Folder

attribute [local simp] files All add get erase Distinct detach

theorem All.imp {p q : κ → Item κ β → Prop} (h : ∀ n item, p n item → q n item)
    {f : Folder κ β} (hf : f.All p) : f.All q := by
  induction f with
  | nil => trivial
  | file name content rest ih => exact ⟨h _ _ hf.1, ih hf.2⟩
  | folder name inner rest ihInner ih => exact ⟨h _ _ hf.1, ih hf.2⟩

variable [DecidableEq κ]

theorem get_cons (name m : κ) (item : Item κ β) (rest : Folder κ β) :
    (cons name item rest).get m =
      if name = m then some item else rest.get m := by
  cases item with
  | file content => rfl
  | folder inner => rfl

theorem get_add_of_ne {name m : κ} (h : m ≠ name) (item : Item κ β)
    (f : Folder κ β) : (f.add name item).get m = f.get m := by
  induction f with
  | nil => rw [add, get_cons, if_neg h.symm]
  | file n content rest ih => rw [add, get, get, ih]
  | folder n inner rest ihInner ih => rw [add, get, get, ih]

theorem get_erase_of_ne {name m : κ} (h : m ≠ name) (f : Folder κ β) :
    (f.erase name).get m = f.get m := by
  induction f with
  | nil => rfl
  | file n content rest ih =>
      rw [erase, get]
      split
      · rename_i hn
        rw [if_neg fun hm => h (hm.symm.trans hn)]
      · rw [get, ih]
  | folder n inner rest ihInner ih =>
      rw [erase, get]
      split
      · rename_i hn
        rw [if_neg fun hm => h (hm.symm.trans hn)]
      · rw [get, ih]

theorem Distinct.get {f inner : Folder κ β} (h : f.Distinct) {name : κ}
    (hget : f.get name = some (.folder inner)) : inner.Distinct := by
  induction f with
  | nil => cases hget
  | file n content rest ih =>
      rw [Folder.get] at hget
      split at hget
      · cases hget
      · exact ih h.2 hget
  | folder n inner' rest ihInner ih =>
      rw [Folder.get] at hget
      split at hget
      · cases hget
        exact h.2.1
      · exact ih h.2.2 hget

theorem Distinct.erase {f : Folder κ β} (h : f.Distinct) (name : κ) :
    (f.erase name).Distinct := by
  induction f with
  | nil => trivial
  | file n content rest ih =>
      rw [Folder.erase]
      split
      · exact h.2
      · rename_i hn
        refine ⟨?_, ih h.2⟩
        rw [get_erase_of_ne hn]
        exact h.1
  | folder n inner rest ihInner ih =>
      rw [Folder.erase]
      split
      · exact h.2.2
      · rename_i hn
        refine ⟨?_, h.2.1, ih h.2.2⟩
        rw [get_erase_of_ne hn]
        exact h.1

theorem distinct_cons {name : κ} {item : Item κ β} {rest : Folder κ β} :
    (cons name item rest).Distinct ↔
      rest.get name = none ∧ item.Distinct ∧ rest.Distinct := by
  cases item with
  | file content => simp [cons, Item.Distinct]
  | folder inner => exact Iff.rfl

theorem Distinct.add {f : Folder κ β} (h : f.Distinct) {name : κ}
    (hfree : f.get name = none) {item : Item κ β} (hitem : item.Distinct) :
    (f.add name item).Distinct := by
  induction f with
  | nil => exact distinct_cons.mpr ⟨rfl, hitem, trivial⟩
  | file n content rest ih =>
      rw [Folder.get] at hfree
      split at hfree
      · cases hfree
      · rename_i hn
        refine ⟨?_, ih h.2 hfree⟩
        rw [get_add_of_ne hn]
        exact h.1
  | folder n inner rest ihInner ih =>
      rw [Folder.get] at hfree
      split at hfree
      · cases hfree
      · rename_i hn
        refine ⟨?_, h.2.1, ih h.2.2 hfree⟩
        rw [get_add_of_ne hn]
        exact h.1

end Folder

end Baulk.Support
